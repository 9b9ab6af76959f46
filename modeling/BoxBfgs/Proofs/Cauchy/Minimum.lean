import BoxBfgs.Proofs.Cauchy.Renumbering

namespace BoxBfgs.Cauchy

open Matrix Topology

variable {n : Nat}

section

variable {s : Setting ℝ n} {w : Walk ℝ n s.memory.size} {rest : List (ℝ × Fin n)} {t : ℝ} {i : Fin n}

/-- The derivatives that the walk works with are those of the model. -/
structure Exact (s : Setting ℝ n) (w : Walk ℝ n s.memory.size) : Prop where
  first : w.f1 = slope s w
  second : w.d.get ≠ 0 → w.f2 = curvature s w

theorem Exact.f1_eq (h : Exact s w) {d z : Fin n → ℝ} (hd : w.d.get = d) (hz : displacement s w w.t = z) :
    w.f1 = d ⬝ᵥ (s.g.get + s.memory.hessian *ᵥ z) := by rw [h.first, slope, hd, hz]

theorem Exact.held (hm : s.memory.Sound) (hp : OnPath s ((t, i) :: rest) w) (h : Exact s w)
    {u : Vector ℝ (s.memory.size + s.memory.size)} (hu : s.memory.solveMiddle (s.memory.rowW i) = .ok u)
    (hfloor : (held s t i w u).d.get ≠ 0 → s.floor ≤ curvature s (held s t i w u)) : Exact s (held s t i w u) := by
  have hmoves : w.d.get ≠ 0 := fun h0 => (hp.pending _ List.mem_cons_self).moves (congrFun h0 i)
  obtain ⟨hf1, hf2⟩ := held_of_exact hm hu hp h.first (h.second hmoves)
  exact ⟨hf1, fun hne => hf2.trans (max_eq_right (hfloor hne))⟩

end

variable {b : Box ℝ n} {m : Memory ℝ n} {x g : Vector ℝ n} {p : CauchyPoint ℝ n m.size}

/-- Whichever coordinates are held along the way, the floor for the second derivative does not act. -/
def Curved (b : Box ℝ n) (m : Memory ℝ n) (x g : Vector ℝ n) (k : Nat) : Prop :=
  ∀ j ≤ k, heading b x g j ≠ 0 →
    Scalar.epsilon * startCurvature b m x g ≤ heading b x g j ⬝ᵥ (m.hessian *ᵥ heading b x g j)

/-- No coordinate is left free at the time at which it reaches its limit. -/
def Untied (b : Box ℝ n) (x g : Vector ℝ n) {k : Nat} (p : CauchyPoint ℝ n k) : Prop :=
  ∀ i, p.free.get i = true → ((b.legs x g).get i).stop ≠ .fin p.t

/-- The derivative of the model along the direction in which the free coordinates move. -/
noncomputable def onward (b : Box ℝ n) (m : Memory ℝ n) (x g : Vector ℝ n) (p : CauchyPoint ℝ n m.size) : ℝ :=
  heading b x g p.passed ⬝ᵥ (g.get + m.hessian *ᵥ (p.x.get - x.get))

theorem setting_exact (hx : b.Inside x) :
    Exact (setting b m x g) (start (setting b m x g) (b.legs x g) (startCurvature b m x g)) :=
  ⟨(start_slope (s := setting b m x g) hx _).symm, fun _ => rfl⟩

theorem point_exact (hm : m.Sound) (hx : b.Inside x) (hne : ((b.legs x g).map Leg.speed).get ≠ 0)
    (h : point b m x g = .ok p) (hc : Curved b m x g p.passed) :
    ∃ rest w, OnPath (setting b m x g) rest w ∧ Follows (setting b m x g) rest w ∧ Exact (setting b m x g) w ∧
      (∀ e ∈ rest, -w.f1 / w.f2 < e.1 - w.t) ∧ finish (setting b m x g) w = p := by
  obtain ⟨rest, w, hp, hf, hexact, hstop, hfinish⟩ := point_invariant
    (J := fun _ w => w.passed ≤ p.passed → Exact (setting b m x g) w) hm hx hne h
    (fun _ => setting_exact hx)
    fun {t i rest w u} hp hf _ hu hexact hle => (hexact (Nat.le_of_succ_le hle)).held hm hp hu fun hd => by
      have hdirection := (hf.held hx hp u).direction
      rw [hdirection] at hd
      rw [curvature, hdirection]
      exact hc _ hle hd
  have hpassed : w.passed = p.passed := by rw [← hfinish, finish_eq]
  exact ⟨rest, w, hp, hf, hexact hpassed.le, hstop, hfinish⟩

theorem onward_eq {s : Setting ℝ n} {w : Walk ℝ n s.memory.size} {rest : List (ℝ × Fin n)} (hx : s.box.Inside s.x)
    (hp : OnPath s rest w) (h : Follows s rest w) (hstop : ∀ e ∈ rest, -w.f1 / w.f2 < e.1 - w.t) :
    onward s.box s.memory s.x s.g (finish s w) = slope s w + rise s w * curvature s w := by
  have hheading : heading s.box s.x s.g (finish s w).passed = w.d.get := by rw [finish_eq, ← h.direction]
  rw [onward, hheading, finish_displacement hx hp hstop, mulVec_add, mulVec_smul, ← add_assoc, dotProduct_add,
    dotProduct_smul, smul_eq_mul, slope, curvature]

/-- Without the floor the search ends where the free coordinates do not bring the model down any more. -/
theorem onward_nonneg (hm : m.Sound) (hx : b.Inside x) (h : point b m x g = .ok p) (hc : Curved b m x g p.passed) :
    0 ≤ onward b m x g p := by
  by_cases hne : ((b.legs x g).map Leg.speed).get = 0
  · rw [point_of_speeds_eq_zero hne] at h
    cases h
    rw [onward, heading_zero, hne, zero_dotProduct]
  · obtain ⟨rest, w, hp, hf, hexact, hstop, rfl⟩ := point_exact hm hx hne h hc
    rw [onward_eq hx hp hf hstop]
    by_cases hd : w.d.get = 0
    · rw [slope, curvature, hd, zero_dotProduct, zero_dotProduct, mul_zero, add_zero]
    · rw [← hexact.first, ← hexact.second hd]
      exact hp.rise_slope

theorem exists_later {rest : List (ℝ × Fin n)} (hsorted : rest.Pairwise fun a b => a.1 ≤ b.1) {t : ℝ}
    (h : ∀ e ∈ rest, t < e.1) : ∃ c, t < c ∧ ∀ e ∈ rest, c ≤ e.1 := by
  cases rest with
  | nil => exact ⟨t + 1, lt_add_one t, nofun⟩
  | cons e rest =>
      refine ⟨e.1, h e List.mem_cons_self, fun e' he => ?_⟩
      rcases List.mem_cons.mp he with rfl | hmem
      · exact le_rfl
      · exact List.rel_of_pairwise_cons hsorted hmem

/-- For some time after its end the search would go on as before, unless a coordinate is to be held there. -/
theorem profile_after (hm : m.Sound) (hx : b.Inside x) (h : point b m x g = .ok p) (hu : Untied b x g p) :
    ∃ c, p.t < c ∧ ∀ τ, p.t ≤ τ → τ ≤ c → profile b m x g τ = profile b m x g p.t + (τ - p.t) * onward b m x g p +
      (τ - p.t) ^ 2 / 2 * (heading b x g p.passed ⬝ᵥ (m.hessian *ᵥ heading b x g p.passed)) := by
  have hr := point_reached hm hx h
  by_cases hne : ((b.legs x g).map Leg.speed).get = 0
  · rw [point_of_speeds_eq_zero hne] at h
    cases h
    refine ⟨0 + 1, lt_add_one 0, fun τ hτ _ => ?_⟩
    rw [onward, heading_zero, hne, zero_dotProduct, zero_dotProduct, mul_zero, mul_zero, add_zero, add_zero, profile, profile,
      path_of_speeds_eq_zero hx hne hτ, path_of_speeds_eq_zero hx hne le_rfl]
  · obtain ⟨rest, w, hp, hf, -, hstop, rfl⟩ := point_invariant (J := fun _ _ => True) hm hx hne h trivial
      fun _ _ _ _ _ => trivial
    have ht : (finish (setting b m x g) w).t = w.t + rise (setting b m x g) w := by rw [finish_eq]
    -- A coordinate that is still ahead is free, and so is not held at this very time.
    have hlate : ∀ e ∈ rest, w.t + rise (setting b m x g) w < e.1 := fun e he => by
      refine (hp.rise_le hstop e he).lt_of_ne fun heq => ?_
      obtain ⟨hpos, hend⟩ := mem_breakpoints.mp (List.mem_of_mem_drop (hf.ahead ▸ he))
      refine hu e.2 ((hr.free e.2).mpr ⟨?_, fun hin => ?_⟩) ?_
      · simp [Leg.starts, Limit.undercuts, hend, hpos]
      · exact (hp.pending e he).moves (by rw [hf.direction]; exact if_pos hin)
      · rw [hend, ht, heq]
    obtain ⟨c, hc, hle⟩ := exists_later hp.sorted hlate
    refine ⟨c, by rwa [ht], fun τ hτ hτc => ?_⟩
    rw [ht] at hτ ⊢
    have hheading : heading b x g (finish (setting b m x g) w).passed = w.d.get := by rw [finish_eq, ← hf.direction]
    have hstart : w.t ≤ w.t + rise (setting b m x g) w := le_add_of_nonneg_right rise_nonneg
    rw [profile_eq hm hx hp hf (hstart.trans hτ) fun e he => hτc.trans (hle e he),
      profile_eq hm hx hp hf hstart (hp.rise_le hstop), onward_eq hx hp hf hstop, hheading, add_sub_cancel_left, curvature]
    ring

section

variable {f : ℝ → ℝ} {t c D Q : ℝ}

theorem hasDerivWithinAt_of_quadratic (hc : t < c)
    (h : ∀ τ, t ≤ τ → τ ≤ c → f τ = f t + (τ - t) * D + (τ - t) ^ 2 / 2 * Q) : HasDerivWithinAt f D (Set.Ici t) t := by
  have hquadratic : HasDerivAt (fun τ => f t + (τ - t) * D + (τ - t) ^ 2 / 2 * Q) D t := by
    have hid := (hasDerivAt_id t).sub_const t
    have hsquare := ((hid.pow 2).div_const 2).mul_const Q
    refine ((hid.mul_const D).const_add (f t)).add hsquare |>.congr_deriv ?_
    simp
  refine hquadratic.hasDerivWithinAt.congr_of_eventuallyEq ?_ (by simp)
  filter_upwards [Icc_mem_nhdsGE hc] with τ hτ
  exact h τ hτ.1 hτ.2

theorem isLocalMinOn_of_quadratic (hfalls : StrictAntiOn f (Set.Icc 0 t)) (hc : t < c)
    (h : ∀ τ, t ≤ τ → τ ≤ c → f τ = f t + (τ - t) * D + (τ - t) ^ 2 / 2 * Q) (hD : 0 ≤ D) (hQ : 0 ≤ Q) :
    IsLocalMinOn f (Set.Ici 0) t := by
  filter_upwards [self_mem_nhdsWithin, mem_nhdsWithin_of_mem_nhds (Iio_mem_nhds hc)] with τ hτ hlt
  rcases le_total τ t with hle | hge
  · exact hfalls.antitoneOn ⟨hτ, hle⟩ ⟨hτ.trans hle, le_rfl⟩ hle
  · rw [h τ hge hlt.le]
    have h1 : 0 ≤ (τ - t) * D := mul_nonneg (sub_nonneg.mpr hge) hD
    have h2 : 0 ≤ (τ - t) ^ 2 / 2 * Q := by positivity
    linarith

end

theorem point_isLocalMinOn (hm : m.Sound) (hx : b.Inside x) (h : point b m x g = .ok p) (hc : Curved b m x g p.passed)
    (hu : Untied b x g p) : IsLocalMinOn (profile b m x g) (Set.Ici 0) p.t := by
  obtain ⟨c, hlt, hafter⟩ := profile_after hm hx h hu
  exact isLocalMinOn_of_quadratic (point_strictAntiOn hm hx h) hlt hafter (onward_nonneg hm hx h hc)
    (posDef_nonneg hm.hessian_posDef _)

section

variable {m : Memory ℝ 3} {c : ℝ}

theorem tie_legs : tieBox.legs tieStart tieGradient = #v[⟨.fin (1 / 32), -1⟩, ⟨.fin (1 / 32), -1⟩, ⟨.posInf, 1⟩] := by
  refine Vec.ext_get (funext fun i => ?_)
  rw [Box.legs, Vec.get_ofFn]
  fin_cases i <;> simp [tieBox, tieStart, tieGradient, Leg.of, Limit.finite?, Vec.get_eq_getElem] <;> norm_num

theorem tie_breakpoints : breakpoints (tieBox.legs tieStart tieGradient) = [(1 / 32, 0), (1 / 32, 1)] := by
  rw [tie_legs, breakpoints]
  have hlist : (List.finRange 3).filterMap (fun i => ((#v[⟨.fin (1 / 32), -1⟩, ⟨.fin (1 / 32), -1⟩, ⟨.posInf, 1⟩] :
      Vector (Leg ℝ) 3).get i).breakpoint?.map fun t => (t, i)) = [(1 / 32, 0), (1 / 32, 1)] := by
    simp [List.finRange_succ, Leg.breakpoint?, Leg.starts, Limit.undercuts, Vec.get_eq_getElem, Limit.finite?]
  rw [hlist]
  refine List.mergeSort_of_pairwise ?_
  simp [earlier]

theorem tie_heading_zero : heading tieBox tieStart tieGradient 0 = ![-1, -1, 1] := by
  rw [heading_zero, tie_legs]
  funext i
  fin_cases i <;> simp [Vec.get_eq_getElem]

theorem tie_heading_one : heading tieBox tieStart tieGradient 1 = ![0, -1, 1] := by
  rw [heading_succ (k := 0) (by rw [tie_breakpoints]; rfl), tie_heading_zero]
  funext i
  fin_cases i <;> rfl

theorem tie_heading_two : heading tieBox tieStart tieGradient 2 = ![0, 0, 1] := by
  rw [heading_succ (k := 1) (by rw [tie_breakpoints]; rfl), tie_heading_one]
  funext i
  fin_cases i <;> rfl

theorem Tie.dot_hessian (h : Tie m c) (d : Fin 3 → ℝ) :
    d ⬝ᵥ (m.hessian *ᵥ d) = (52 - c) * d 0 ^ 2 - 10 * d 0 * d 1 + c * d 1 ^ 2 + 26 * d 2 ^ 2 := by
  rw [h.hessian_mulVec]
  simp [dotProduct, Fin.sum_univ_three]
  ring

theorem Tie.startCurvature_eq (h : Tie m c) : startCurvature tieBox m tieStart tieGradient = 68 := by
  rw [startCurvature, ← heading_zero, tie_heading_zero, h.dot_hessian]
  simp
  ring

noncomputable abbrev tieSetting (m : Memory ℝ 3) : Setting ℝ 3 := setting tieBox m tieStart tieGradient

noncomputable abbrev tieWalk (m : Memory ℝ 3) : Walk ℝ 3 m.size :=
  start (tieSetting m) (tieBox.legs tieStart tieGradient) (startCurvature tieBox m tieStart tieGradient)

theorem tie_speeds_ne_zero : ((tieBox.legs tieStart tieGradient).map Leg.speed).get ≠ 0 := by
  rw [← heading_zero, tie_heading_zero]
  intro h0
  simpa using congrFun h0 0

theorem Tie.floor_le (h : Tie m c) {a : ℝ} (ha : 1 ≤ a) : (tieSetting m).floor ≤ a := by
  refine le_trans ?_ ha
  change Scalar.epsilon * startCurvature tieBox m tieStart tieGradient ≤ 1
  rw [h.startCurvature_eq]
  linarith [Scalar.epsilon_lt]

theorem tieWalk_d : (tieWalk m).d.get = ![-1, -1, 1] := by
  rw [← tie_heading_zero, heading_zero]
  rfl

theorem Tie.tieWalk_go (h : Tie m c) : 1 / 32 - (tieWalk m).t ≤ -(tieWalk m).f1 / (tieWalk m).f2 := by
  have hf1 : (tieWalk m).f1 = -3 := by
    change -Vec.dot (tieWalk m).d (tieWalk m).d = -3
    rw [Vec.dot_real, tieWalk_d]
    simp [dotProduct, Fin.sum_univ_three]
    norm_num
  have hf2 : (tieWalk m).f2 = 68 := h.startCurvature_eq
  have ht : (tieWalk m).t = 0 := rfl
  rw [hf1, hf2, ht]
  norm_num

/-- Where the first of the two coordinates is held, the other one is at its limit as well. -/
theorem tieWalk_displacement (hp : OnPath (tieSetting m) [(1 / 32, 0), (1 / 32, 1)] (tieWalk m))
    (u : Vector ℝ (m.size + m.size)) :
    displacement (tieSetting m) (held (tieSetting m) (1 / 32) 0 (tieWalk m) u) (1 / 32) = ![-1 / 32, -1 / 32, 1 / 32] := by
  have ht : (tieWalk m).t = 0 := rfl
  have hstart : displacement (tieSetting m) (tieWalk m) 0 = 0 := start_displacement _
  rw [held_displacement (hp.pending _ List.mem_cons_self), tieWalk_d, ht, hstart]
  funext i
  fin_cases i <;> simp <;> norm_num

theorem Tie.tieWalk_onPath (h : Tie m c) : OnPath (tieSetting m) [(1 / 32, 0), (1 / 32, 1)] (tieWalk m) := by
  rw [← tie_breakpoints]
  exact setting_onPath h.reachable.sound tie_inside tie_speeds_ne_zero

theorem tieWalk_follows : Follows (tieSetting m) [(1 / 32, 0), (1 / 32, 1)] (tieWalk m) := by
  rw [← tie_breakpoints]
  exact start_follows (s := tieSetting m) tie_inside (startCurvature tieBox m tieStart tieGradient)

theorem Tie.held_first (h : Tie m c) (u : Vector ℝ (m.size + m.size)) :
    (held (tieSetting m) (1 / 32) 0 (tieWalk m) u).d.get = ![0, -1, 1] ∧
      curvature (tieSetting m) (held (tieSetting m) (1 / 32) 0 (tieWalk m) u) = c + 26 := by
  have hd := (tieWalk_follows.held tie_inside h.tieWalk_onPath u).direction.trans tie_heading_one
  refine ⟨hd, ?_⟩
  rw [curvature, hd]
  change _ ⬝ᵥ (m.hessian *ᵥ _) = _
  rw [h.dot_hessian]
  simp

/-- The smaller one of the two coordinates is held first. -/
theorem Tie.first (h : Tie m c) (hc : 0 ≤ c) : ∃ w,
    walk (tieSetting m) (breakpoints (tieBox.legs tieStart tieGradient)) (tieWalk m) =
      walk (tieSetting m) [(1 / 32, 1)] w ∧
    OnPath (tieSetting m) [(1 / 32, 1)] w ∧ Follows (tieSetting m) [(1 / 32, 1)] w ∧ Exact (tieSetting m) w ∧
    w.t = 1 / 32 ∧ w.passed = 1 ∧ w.f1 = (c - 43) / 32 ∧
    displacement (tieSetting m) w (1 / 32) = ![-1 / 32, -1 / 32, 1 / 32] := by
  have hm := h.reachable.sound
  have hp := h.tieWalk_onPath
  obtain ⟨u, hu⟩ := h.solves (m.rowW 0)
  obtain ⟨hd, hcurvature⟩ := h.held_first u
  have hz := tieWalk_displacement hp u
  have hexact := (setting_exact tie_inside).held hm hp hu fun _ => by
    refine h.floor_le ?_
    rw [hcurvature]
    linarith
  refine ⟨_, ?_, hp.held hm (setting_floor_pos hm tie_speeds_ne_zero) h.tieWalk_go hu,
    tieWalk_follows.held tie_inside hp u, hexact, rfl, rfl, ?_, hz⟩
  · rw [tie_breakpoints]
    exact hp.walk_of_le h.tieWalk_go hu
  · refine (hexact.f1_eq hd hz).trans ?_
    change _ ⬝ᵥ (_ + m.hessian *ᵥ _) = _
    rw [h.hessian_mulVec]
    simp [dotProduct, Fin.sum_univ_three, tieGradient, Vec.get_eq_getElem]
    ring

theorem Tie.point_eq (h : Tie m c) {w w' : Walk ℝ 3 m.size}
    (hfirst : walk (tieSetting m) (breakpoints (tieBox.legs tieStart tieGradient)) (tieWalk m) =
      walk (tieSetting m) [(1 / 32, 1)] w)
    (hrest : walk (tieSetting m) [(1 / 32, 1)] w = .ok w') :
    point tieBox m tieStart tieGradient = .ok (finish (tieSetting m) w') := by
  obtain ⟨u, hu⟩ := h.solves (m.transposeW ((tieBox.legs tieStart tieGradient).map Leg.speed))
  rw [point_eq_map h.reachable.sound tie_speeds_ne_zero hu, hfirst, hrest]
  rfl

/-- The other one of the two coordinates stays free where the model rises along it. -/
theorem Tie.one_held (h : Tie m 51) : ∃ p, point tieBox m tieStart tieGradient = .ok p ∧ p.t = 1 / 32 ∧ p.passed = 1 := by
  obtain ⟨w, hfirst, hp, -, -, ht, hpassed, hf1, -⟩ := h.first (by norm_num)
  have hneg : -w.f1 / w.f2 < 0 := div_neg_of_neg_of_pos (by rw [hf1]; norm_num) hp.f2_pos
  refine ⟨_, h.point_eq hfirst (hp.walk_of_lt (by rwa [ht, sub_self])), ?_, ?_⟩
  · rw [finish_eq, hp.rise_eq, max_eq_right hneg.le, add_zero, ht]
  · rw [finish_eq, hpassed]

theorem Tie.both_held (h : Tie m 1) : ∃ p, point tieBox m tieStart tieGradient = .ok p ∧ p.t = 1 / 26 ∧ p.passed = 2 := by
  have hm := h.reachable.sound
  obtain ⟨w, hfirst, hp, hf, hexact, ht, hpassed, hf1, hz⟩ := h.first zero_le_one
  have hgo : 1 / 32 - w.t ≤ -w.f1 / w.f2 := by
    rw [ht, sub_self, hf1]
    exact (div_pos (by norm_num) hp.f2_pos).le
  obtain ⟨u, hu⟩ := h.solves (m.rowW 1)
  have hd' : (held (tieSetting m) (1 / 32) 1 w u).d.get = ![0, 0, 1] := by
    refine ((hf.held tie_inside hp u).direction.trans ?_).trans tie_heading_two
    change heading _ _ _ (w.passed + 1) = _
    rw [hpassed]
  have hcurvature : curvature (tieSetting m) (held (tieSetting m) (1 / 32) 1 w u) = 26 := by
    rw [curvature, hd']
    change _ ⬝ᵥ (m.hessian *ᵥ _) = _
    rw [h.dot_hessian]
    simp
  have hz' : displacement (tieSetting m) (held (tieSetting m) (1 / 32) 1 w u) (1 / 32) = ![-1 / 32, -1 / 32, 1 / 32] := by
    rw [held_displacement (hp.pending _ List.mem_cons_self), ht, sub_self, zero_smul, add_zero, hz]
  have hexact' := hexact.held hm hp hu fun _ => (h.floor_le (by norm_num)).trans_eq hcurvature.symm
  have hp' := hp.held hm (setting_floor_pos hm tie_speeds_ne_zero) hgo hu
  have hf1' : (held (tieSetting m) (1 / 32) 1 w u).f1 = -3 / 16 := by
    refine (hexact'.f1_eq hd' hz').trans ?_
    change _ ⬝ᵥ (_ + m.hessian *ᵥ _) = _
    rw [h.hessian_mulVec]
    simp [dotProduct, Fin.sum_univ_three, tieGradient, Vec.get_eq_getElem]
    norm_num
  have hf2' : (held (tieSetting m) (1 / 32) 1 w u).f2 = 26 := by
    rw [hexact'.second fun h0 => ?_, hcurvature]
    rw [hd'] at h0
    simpa using congrFun h0 2
  refine ⟨_, h.point_eq hfirst (hp.walk_of_le hgo hu), ?_, ?_⟩
  · rw [finish_eq, hp'.rise_eq, hf1', hf2']
    change (1 / 32 : ℝ) + _ = _
    norm_num
  · rw [finish_eq]
    change w.passed + 1 = 2
    rw [hpassed]

theorem Tie.curved (h : Tie m c) (hc : 0 ≤ c) {k : Nat} (hk : k ≤ 2) : Curved tieBox m tieStart tieGradient k := by
  intro j hj _
  change (tieSetting m).floor ≤ _
  refine h.floor_le ?_
  rw [h.dot_hessian]
  obtain rfl | rfl | rfl : j = 0 ∨ j = 1 ∨ j = 2 := by omega
  · rw [tie_heading_zero]
    simp
    linarith
  · rw [tie_heading_one]
    simp
    linarith
  · rw [tie_heading_two]
    simp

theorem tie_path {τ : ℝ} (hτ : 1 / 32 ≤ τ) : (tieBox.path tieStart tieGradient τ).get = ![0, 0, τ] := by
  funext i
  rw [Box.get_path]
  have hlow : (1 / 32 : ℝ) - τ ≤ 0 := sub_nonpos.mpr hτ
  fin_cases i
  · simpa [tieBox, tieStart, tieGradient, Vec.get_eq_getElem, Limit.clamp, Limit.raise_fin, Limit.lower] using hlow
  · simpa [tieBox, tieStart, tieGradient, Vec.get_eq_getElem, Limit.clamp, Limit.raise_fin, Limit.lower] using hlow
  · simp [tieBox, tieStart, tieGradient, Vec.get_eq_getElem, Limit.clamp, Limit.raise, Limit.lower]

theorem Tie.profile_eq (h : Tie m 51) {τ : ℝ} (hτ : 1 / 32 ≤ τ) :
    profile tieBox m tieStart tieGradient τ = 13 * τ ^ 2 - τ - 43 / 1024 := by
  rw [profile, tie_path hτ, Memory.model, h.hessian_mulVec]
  simp [dotProduct, Fin.sum_univ_three, tieStart, tieGradient, Vec.get_eq_getElem]
  ring

theorem Tie.profile_falls (h : Tie m 51) :
    HasDerivWithinAt (profile tieBox m tieStart tieGradient) (-3 / 16) (Set.Ici (1 / 32)) (1 / 32) := by
  refine hasDerivWithinAt_of_quadratic (c := 1) (Q := 26) (by norm_num) fun τ hτ _ => ?_
  rw [h.profile_eq hτ, h.profile_eq le_rfl]
  ring

theorem tiePair_renumber : tiePair.renumber (Equiv.swap 0 1) = ⟨#v[0, 1, 0], #v[-5, 1, 0]⟩ := by
  refine congrArg₂ Pair.mk ?_ ?_
  all_goals
    refine Vec.ext_get (funext fun i => ?_)
    rw [Vec.get_renumber]
    fin_cases i <;> rfl

theorem tie_memory_renumbered : Tie ((Memory.empty 3 1).append (tiePair.renumber (Equiv.swap 0 1))) 1 := by
  apply tie_of_pair (tiePair_unitStep.renumber _)
  intro v
  rw [tiePair_renumber]
  funext i
  fin_cases i <;> simp [dotProduct, Fin.sum_univ_three, Vec.get_eq_getElem]
  ring

theorem tie_renumbered : tieBox.renumber (Equiv.swap 0 1) = tieBox ∧ Vec.renumber (Equiv.swap 0 1) tieStart = tieStart ∧
    Vec.renumber (Equiv.swap 0 1) tieGradient = tieGradient := by
  refine ⟨congrArg₂ Box.mk ?_ ?_, ?_, ?_⟩
  all_goals
    refine Vec.ext_get (funext fun i => ?_)
    rw [Vec.get_renumber]
    fin_cases i <;> rfl

end

/-- Where the floor does not act, the search ends at a time from which on the free coordinates do not bring the model down.
This is the first local minimum along the path, whatever the coordinates are numbered by, unless one of those coordinates
reaches its limit at the same time as one that is held there. -/
theorem point_first_minimum (hm : m.Reachable) (hx : b.Inside x) (h : point b m x g = .ok p) (hc : Curved b m x g p.passed) :
    0 ≤ onward b m x g p ∧ (Untied b x g p →
      HasDerivWithinAt (profile b m x g) (onward b m x g p) (Set.Ici p.t) p.t ∧
        IsLocalMinOn (profile b m x g) (Set.Ici 0) p.t ∧
        (∀ τ, 0 ≤ τ → IsLocalMinOn (profile b m x g) (Set.Ici 0) τ → p.t ≤ τ) ∧
        ∀ (σ : Equiv.Perm (Fin n)) (m' : Memory ℝ n) (p' : CauchyPoint ℝ n m'.size), m'.Reachable →
          m'.pairs = m.pairs.map (Pair.renumber σ) →
          point (b.renumber σ) m' (Vec.renumber σ x) (Vec.renumber σ g) = .ok p' →
          Curved (b.renumber σ) m' (Vec.renumber σ x) (Vec.renumber σ g) p'.passed →
          Untied (b.renumber σ) (Vec.renumber σ x) (Vec.renumber σ g) p' → p'.t = p.t ∧ p'.x = Vec.renumber σ p.x) := by
  refine ⟨onward_nonneg hm.sound hx h hc, fun hu => ?_⟩
  have hr := point_reached hm.sound hx h
  have hfalls := point_strictAntiOn hm.sound hx h
  have hmin := point_isLocalMinOn hm.sound hx h hc hu
  obtain ⟨c, hlt, hafter⟩ := profile_after hm.sound hx h hu
  refine ⟨hasDerivWithinAt_of_quadratic hlt hafter, hmin, fun τ hτ => le_of_isLocalMinOn hfalls hτ, ?_⟩
  intro σ m' p' hm' hpairs h' hc' hu'
  have hx' := b.renumber_inside σ hx
  have hr' := point_reached hm'.sound hx' h'
  have hfalls' := point_strictAntiOn hm'.sound hx' h'
  have hmin' := point_isLocalMinOn hm'.sound hx' h' hc' hu'
  rw [profile_renumber hm.sound hm'.sound hpairs] at hfalls' hmin'
  have ht : p'.t = p.t :=
    le_antisymm (le_of_isLocalMinOn hfalls' hr.time_nonneg hmin) (le_of_isLocalMinOn hfalls hr'.time_nonneg hmin')
  refine ⟨ht, ?_⟩
  rw [hr'.x_eq, hr.x_eq, ht, Box.path_renumber]

theorem point_first_minimum_tie : ∃ (b : Box ℝ 3) (m : Memory ℝ 3) (x g : Vector ℝ 3) (p : CauchyPoint ℝ 3 m.size),
    m.Reachable ∧ b.Inside x ∧ point b m x g = .ok p ∧ Curved b m x g p.passed ∧ Untied b x g p ∧
      (∃ i j, i ≠ j ∧ ((b.legs x g).get i).stop = .fin (1 / 32) ∧ ((b.legs x g).get j).stop = .fin (1 / 32)) ∧
      IsLocalMinOn (profile b m x g) (Set.Ici 0) p.t ∧ p.t = 1 / 26 := by
  have h := tie_memory_renumbered
  obtain ⟨p, hp, ht, hpassed⟩ := h.both_held
  have hc : Curved tieBox _ tieStart tieGradient p.passed := h.curved zero_le_one hpassed.le
  have hu : Untied tieBox tieStart tieGradient p := by
    intro i _
    rw [tie_legs, ht]
    fin_cases i <;> simp [Vec.get_eq_getElem]
  obtain ⟨-, hmin⟩ := point_first_minimum h.reachable tie_inside hp hc
  refine ⟨_, _, _, _, p, h.reachable, tie_inside, hp, hc, hu, ⟨0, 1, by decide, ?_, ?_⟩, (hmin hu).2.1, ht⟩
  · rw [tie_legs]
    rfl
  · rw [tie_legs]
    rfl

/-- Where two coordinates reach their limits together the search can end between them, with the model about to fall; where it
ends then depends on which of the two comes first. -/
theorem point_ends_in_tie : ∃ p p', tieMemory.Reachable ∧ tieBox.Inside tieStart ∧
    point tieBox tieMemory tieStart tieGradient = .ok p ∧
    Curved tieBox tieMemory tieStart tieGradient p.passed ∧
    HasDerivWithinAt (profile tieBox tieMemory tieStart tieGradient) (-3 / 16) (Set.Ici p.t) p.t ∧
    ((Memory.empty 3 1).append (tiePair.renumber (Equiv.swap 0 1))).Reachable ∧
    point (tieBox.renumber (Equiv.swap 0 1)) ((Memory.empty 3 1).append (tiePair.renumber (Equiv.swap 0 1)))
      (Vec.renumber (Equiv.swap 0 1) tieStart) (Vec.renumber (Equiv.swap 0 1) tieGradient) = .ok p' ∧
    Curved (tieBox.renumber (Equiv.swap 0 1)) ((Memory.empty 3 1).append (tiePair.renumber (Equiv.swap 0 1)))
      (Vec.renumber (Equiv.swap 0 1) tieStart) (Vec.renumber (Equiv.swap 0 1) tieGradient) p'.passed ∧
    p.t = 1 / 32 ∧ p'.t = 1 / 26 := by
  obtain ⟨p, hp, ht, hpassed⟩ := tie_memory.one_held
  obtain ⟨p', hp', ht', hpassed'⟩ := tie_memory_renumbered.both_held
  obtain ⟨hbox, hstart, hgradient⟩ := tie_renumbered
  rw [hbox, hstart, hgradient]
  refine ⟨p, p', tie_memory.reachable, tie_inside, hp, tie_memory.curved (by norm_num) (by omega), ?_,
    tie_memory_renumbered.reachable, hp', tie_memory_renumbered.curved zero_le_one hpassed'.le, ht, ht'⟩
  rw [ht]
  exact tie_memory.profile_falls

end BoxBfgs.Cauchy
