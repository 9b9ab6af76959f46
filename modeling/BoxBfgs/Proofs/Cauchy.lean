import BoxBfgs.Proofs.Memory.Model
import BoxBfgs.Proofs.Path

namespace BoxBfgs.Cauchy

open Matrix

variable {n : Nat} {s : Setting ℝ n} {w w' : Walk ℝ n s.memory.size} {rest : List (ℝ × Fin n)} {t : ℝ} {i : Fin n}

/-- Where the coordinates are at a time at which no further one was held. -/
noncomputable def position (s : Setting ℝ n) (w : Walk ℝ n s.memory.size) (t : ℝ) : Fin n → ℝ :=
  fun i => if w.d.get i = 0 then w.x.get i else s.x.get i + t * w.d.get i

noncomputable def displacement (s : Setting ℝ n) (w : Walk ℝ n s.memory.size) (t : ℝ) : Fin n → ℝ :=
  position s w t - s.x.get

/-- The derivative of the model along the direction of the walk, at the time it has come to. -/
noncomputable def slope (s : Setting ℝ n) (w : Walk ℝ n s.memory.size) : ℝ :=
  w.d.get ⬝ᵥ (s.g.get + s.memory.hessian *ᵥ displacement s w w.t)

/-- The second derivative of the model along the direction of the walk. -/
noncomputable def curvature (s : Setting ℝ n) (w : Walk ℝ n s.memory.size) : ℝ :=
  w.d.get ⬝ᵥ (s.memory.hessian *ᵥ w.d.get)

noncomputable def target (s : Setting ℝ n) (i : Fin n) : Limit ℝ :=
  if -s.g.get i > 0 then s.box.upper.get i else s.box.lower.get i

/-- A coordinate still moves, and reaches its limit at the given time. -/
structure Pending (s : Setting ℝ n) (w : Walk ℝ n s.memory.size) (t : ℝ) (i : Fin n) : Prop where
  time_pos : 0 < t
  moves : w.d.get i ≠ 0
  speed : w.d.get i = -s.g.get i
  limit : target s i = .fin (s.x.get i + t * -s.g.get i)
  between : Limit.Between (s.box.lower.get i) (s.box.upper.get i) (s.x.get i + t * -s.g.get i)

/-- What holds with some breakpoints left. The derivatives that the walk works with never fall below those of the
model, as the floor only raises them. -/
structure OnPath (s : Setting ℝ n) (rest : List (ℝ × Fin n)) (w : Walk ℝ n s.memory.size) : Prop where
  sorted : rest.Pairwise fun a b => a.1 ≤ b.1
  nodup : (rest.map Prod.snd).Nodup
  time_nonneg : 0 ≤ w.t
  time_le : ∀ e ∈ rest, w.t ≤ e.1
  pending : ∀ e ∈ rest, Pending s w e.1 e.2
  still : ∀ i, w.d.get i = 0 → Limit.Between (s.box.lower.get i) (s.box.upper.get i) (w.x.get i)
  moving : ∀ i, w.d.get i ≠ 0 → (∃ t, (t, i) ∈ rest) ∨
    ∀ t, 0 ≤ t → Limit.Between (s.box.lower.get i) (s.box.upper.get i) (s.x.get i + t * w.d.get i)
  p_eq : w.p.get = s.memory.matrixW.toMatrixᵀ *ᵥ w.d.get
  c_eq : w.c.get = s.memory.matrixW.toMatrixᵀ *ᵥ displacement s w w.t
  f1_ge : w.d.get ⬝ᵥ (s.g.get + s.memory.hessian *ᵥ displacement s w w.t) ≤ w.f1
  f2_ge : w.d.get ⬝ᵥ (s.memory.hessian *ᵥ w.d.get) ≤ w.f2
  f2_pos : 0 < w.f2
  ahead : w.ahead = some (-w.f1 / w.f2)
  lower : s.memory.model s.g.get (displacement s w w.t) < 0 ∨ w.t = 0 ∧ displacement s w w.t = 0 ∧ w.f1 < 0

theorem displacement_add (a b : ℝ) : displacement s w (a + b) = displacement s w a + b • w.d.get := by
  funext j
  simp only [displacement, position, Pi.sub_apply, Pi.add_apply, Pi.smul_apply, smul_eq_mul]
  split_ifs with h
  · rw [h, mul_zero, add_zero]
  · ring

/-- The walk once a coordinate is held, with the solution of the middle system for its row of `W`. -/
noncomputable def held (s : Setting ℝ n) (t : ℝ) (i : Fin n) (w : Walk ℝ n s.memory.size)
    (u : Vector ℝ (s.memory.size + s.memory.size)) : Walk ℝ n s.memory.size :=
  let limit := (if w.d.get i > 0 then s.box.upper.get i else s.box.lower.get i).value
  let g := s.g.get i
  let c := w.c + Vec.scale (t - w.t) w.p
  let f1 := w.f1 + ((t - w.t) * w.f2 + g * g + s.memory.theta * g * (limit - s.x.get i) - g * Vec.dot u c)
  let f2 := Scalar.greatest s.floor (w.f2 - (s.memory.theta * g * g + 2.0 * g * Vec.dot u w.p +
    g * g * Vec.dot u (s.memory.rowW i)))
  { x := Vec.put w.x i limit, d := Vec.put w.d i 0, free := Vec.put w.free i false,
    p := w.p + Vec.scale g (s.memory.rowW i), c, f1, f2, t, passed := w.passed + 1, ahead := some (-f1 / f2) }

/-- The second derivative once a coordinate is held, before it is compared with the floor. -/
noncomputable def unfloored (s : Setting ℝ n) (i : Fin n) (w : Walk ℝ n s.memory.size)
    (u : Vector ℝ (s.memory.size + s.memory.size)) : ℝ :=
  let g := s.g.get i
  w.f2 - (s.memory.theta * g * g + 2.0 * g * Vec.dot u w.p + g * g * Vec.dot u (s.memory.rowW i))

theorem pass_eq_map : pass s t i w = (s.memory.solveMiddle (s.memory.rowW i)).map (held s t i w) := by
  change (s.memory.solveMiddle (s.memory.rowW i)).bind _ = _
  cases s.memory.solveMiddle (s.memory.rowW i) with
  | error why => rfl
  | ok u => rfl

section

variable {u : Vector ℝ (s.memory.size + s.memory.size)}

theorem held_d (h : Pending s w t i) : (held s t i w u).d.get = w.d.get + s.g.get i • Pi.single i 1 := by
  funext j
  rw [held, Vec.get_put]
  by_cases hj : j = i
  · subst hj
    simp [h.speed]
  · simp [hj]

theorem held_x (h : Pending s w t i) :
    (held s t i w u).x.get = Function.update w.x.get i (s.x.get i + t * -s.g.get i) := by
  have hlimit := h.limit
  rw [target, ← h.speed] at hlimit
  rw [held, Vec.get_put, hlimit, Limit.value, h.speed]

theorem held_displacement (h : Pending s w t i) :
    displacement s (held s t i w u) t = displacement s w w.t + (t - w.t) • w.d.get := by
  rw [← displacement_add, add_sub_cancel]
  funext j
  simp only [displacement, position, Pi.sub_apply]
  congr 1
  by_cases hj : j = i
  · subst hj
    rw [held_x h, held_d h, if_neg h.moves]
    simp [h.speed]
  · rw [held_x h, held_d h]
    simp [hj]

theorem held_c (h : OnPath s ((t, i) :: rest) w) : (held s t i w u).c.get =
    s.memory.matrixW.toMatrixᵀ *ᵥ (displacement s w w.t + (t - w.t) • w.d.get) := by
  rw [held, Vec.get_add, Vec.get_scale_eq, h.c_eq, h.p_eq, mulVec_add, mulVec_smul]

theorem held_p (h : OnPath s ((t, i) :: rest) w) :
    (held s t i w u).p.get = s.memory.matrixW.toMatrixᵀ *ᵥ (held s t i w u).d.get := by
  rw [held_d (h.pending _ List.mem_cons_self), held, Vec.get_add, Vec.get_scale_eq, h.p_eq, Memory.get_rowW, mulVec_add,
    mulVec_smul, mulVec_single_one]
  rfl

theorem held_target (h : Pending s w t i) :
    (if w.d.get i > 0 then s.box.upper.get i else s.box.lower.get i).value - s.x.get i =
      displacement s w t i := by
  have hlimit := h.limit
  rw [target, ← h.speed] at hlimit
  rw [hlimit, Limit.value, displacement, Pi.sub_apply, position, if_neg h.moves]

theorem held_slope (h : Pending s w t i) : slope s (held s t i w u) = slope s w + (t - w.t) * curvature s w +
    s.g.get i * (s.g.get i + (s.memory.hessian *ᵥ (displacement s w w.t + (t - w.t) • w.d.get)) i) := by
  have ht : (held s t i w u).t = t := rfl
  rw [slope, ht, held_displacement h, held_d h, add_dotProduct, smul_dotProduct, single_one_dotProduct, Pi.add_apply,
    mulVec_add, mulVec_smul, ← add_assoc, dotProduct_add, dotProduct_smul, smul_eq_mul, smul_eq_mul, slope, curvature]

/-- How far the first derivative is off grows by how far the second one is off. -/
theorem held_f1_sub (hm : s.memory.Sound) (hu : s.memory.solveMiddle (s.memory.rowW i) = .ok u)
    (h : OnPath s ((t, i) :: rest) w) : (held s t i w u).f1 - slope s (held s t i w u) =
      w.f1 - slope s w + (t - w.t) * (w.f2 - curvature s w) := by
  have hp : Pending s w t i := h.pending _ List.mem_cons_self
  have hc := held_c (u := u) h
  have hrow := hm.hessian_row hu (displacement s w w.t + (t - w.t) • w.d.get)
  rw [← hc] at hrow
  have hf1 : (held s t i w u).f1 = w.f1 + ((t - w.t) * w.f2 + s.g.get i * s.g.get i +
      s.memory.theta * s.g.get i * (displacement s w w.t + (t - w.t) • w.d.get) i -
        s.g.get i * (u.get ⬝ᵥ (held s t i w u).c.get)) := by
    rw [← displacement_add, add_sub_cancel, ← held_target hp, ← Vec.dot_real]
    rfl
  rw [held_slope hp, hrow, hf1]
  ring

/-- But for the floor the second derivative changes as that of the model does. -/
theorem unfloored_eq (hm : s.memory.Sound) (hu : s.memory.solveMiddle (s.memory.rowW i) = .ok u)
    (h : OnPath s ((t, i) :: rest) w) :
    unfloored s i w u = w.f2 - curvature s w + curvature s (held s t i w u) := by
  have hp : Pending s w t i := h.pending _ List.mem_cons_self
  have hrow := hm.hessian_row hu w.d.get
  have hdiag := hm.hessian_row hu (Pi.single i 1)
  have hW : s.memory.matrixW.toMatrixᵀ *ᵥ Pi.single i 1 = (s.memory.rowW i).get := by
    rw [mulVec_single_one, Memory.get_rowW]
    rfl
  rw [hW, Pi.single_eq_same, mul_one] at hdiag
  rw [← h.p_eq, hp.speed] at hrow
  have hcross := hm.hessian_comm w.d.get (Pi.single i 1)
  rw [single_one_dotProduct] at hcross
  have hcurvature : curvature s (held s t i w u) = curvature s w - (s.memory.theta * s.g.get i * s.g.get i +
      2.0 * s.g.get i * (u.get ⬝ᵥ w.p.get) + s.g.get i * s.g.get i * (u.get ⬝ᵥ (s.memory.rowW i).get)) := by
    rw [curvature, held_d hp, mulVec_add, mulVec_smul, dotProduct_add, add_dotProduct, add_dotProduct, dotProduct_smul,
      smul_dotProduct, smul_dotProduct, single_one_dotProduct, single_one_dotProduct, hcross, Pi.smul_apply, hrow,
      curvature]
    simp only [smul_eq_mul, hdiag]
    norm_num
    ring
  rw [hcurvature, ← add_sub_assoc, sub_add_cancel]
  simp only [unfloored, Vec.dot_real]

/-- The second derivative changes as that of the model does, but does not fall below the floor. -/
theorem held_f2_eq (hm : s.memory.Sound) (hu : s.memory.solveMiddle (s.memory.rowW i) = .ok u)
    (h : OnPath s ((t, i) :: rest) w) :
    (held s t i w u).f2 = max s.floor (w.f2 - curvature s w + curvature s (held s t i w u)) := by
  rw [← unfloored_eq hm hu h, ← Scalar.greatest_real]
  rfl

/-- Where the derivatives are those of the model, they are so again behind a breakpoint, but for the floor. -/
theorem held_of_exact (hm : s.memory.Sound) (hu : s.memory.solveMiddle (s.memory.rowW i) = .ok u)
    (h : OnPath s ((t, i) :: rest) w) (hf1 : w.f1 = slope s w) (hf2 : w.f2 = curvature s w) :
    (held s t i w u).f1 = slope s (held s t i w u) ∧
      (held s t i w u).f2 = max s.floor (curvature s (held s t i w u)) := by
  have hsub := held_f1_sub hm hu h
  rw [hf1, hf2, sub_self, sub_self, mul_zero, add_zero] at hsub
  refine ⟨sub_eq_zero.mp hsub, ?_⟩
  rw [held_f2_eq hm hu h, hf2, sub_self, zero_add]

theorem held_f1 (hm : s.memory.Sound) (hu : s.memory.solveMiddle (s.memory.rowW i) = .ok u)
    (h : OnPath s ((t, i) :: rest) w) : slope s (held s t i w u) ≤ (held s t i w u).f1 := by
  have hdt : 0 ≤ t - w.t := sub_nonneg.mpr (h.time_le _ List.mem_cons_self)
  have hf1 : 0 ≤ w.f1 - slope s w := sub_nonneg.mpr h.f1_ge
  have hf2 : 0 ≤ (t - w.t) * (w.f2 - curvature s w) := mul_nonneg hdt (sub_nonneg.mpr h.f2_ge)
  have hsub := held_f1_sub hm hu h
  linarith

theorem held_f2 (hm : s.memory.Sound) (hu : s.memory.solveMiddle (s.memory.rowW i) = .ok u)
    (h : OnPath s ((t, i) :: rest) w) : curvature s (held s t i w u) ≤ (held s t i w u).f2 := by
  have hf2 : 0 ≤ w.f2 - curvature s w := sub_nonneg.mpr h.f2_ge
  rw [held_f2_eq hm hu h]
  exact le_max_of_le_right (le_add_of_nonneg_left hf2)

end

namespace OnPath

theorem head_le (h : OnPath s ((t, i) :: rest) w) : ∀ e ∈ (t, i) :: rest, t ≤ e.1 := by
  intro e he
  rcases List.mem_cons.mp he with rfl | hmem
  · exact le_rfl
  · exact List.rel_of_pairwise_cons h.sorted hmem

/-- As long as the minimum is not passed the model does not rise, and it falls as soon as time goes on. -/
theorem model_lt (hm : s.memory.Sound) (h : OnPath s rest w) {dt : ℝ} (hdt : 0 ≤ dt) (hgo : dt ≤ -w.f1 / w.f2)
    (hpos : w.t = 0 → 0 < dt) : s.memory.model s.g.get (displacement s w w.t + dt • w.d.get) < 0 := by
  have hgo' : dt * w.f2 ≤ -w.f1 := (le_div_iff₀ h.f2_pos).mp hgo
  have hf1 : w.f1 ≤ 0 := by linarith [mul_nonneg hdt h.f2_pos.le]
  have h1 := mul_le_mul_of_nonneg_left h.f1_ge hdt
  have h2 := mul_le_mul_of_nonneg_left h.f2_ge (div_nonneg (sq_nonneg dt) zero_le_two)
  have h3 := mul_le_mul_of_nonneg_left hgo' hdt
  have h4 := mul_nonpos_of_nonneg_of_nonpos hdt hf1
  have hfall : s.memory.model s.g.get (displacement s w w.t + dt • w.d.get) ≤
      s.memory.model s.g.get (displacement s w w.t) + dt * w.f1 / 2 := by
    rw [hm.model_add_smul]
    linarith
  rcases h.lower with hlt | ⟨ht, hz, hneg⟩
  · linarith
  · have hzero : s.memory.model s.g.get (displacement s w w.t) = 0 := by rw [hz, Memory.model_zero]
    have := mul_neg_of_pos_of_neg (hpos ht) hneg
    linarith

theorem held (hm : s.memory.Sound) (hfloor : 0 < s.floor) (h : OnPath s ((t, i) :: rest) w)
    (hgo : t - w.t ≤ -w.f1 / w.f2) {u : Vector ℝ (s.memory.size + s.memory.size)}
    (hu : s.memory.solveMiddle (s.memory.rowW i) = .ok u) : OnPath s rest (held s t i w u) := by
  have hp : Pending s w t i := h.pending _ List.mem_cons_self
  have hdt : 0 ≤ t - w.t := sub_nonneg.mpr (h.time_le _ List.mem_cons_self)
  have hd {j : Fin n} (hj : j ≠ i) : (Cauchy.held s t i w u).d.get j = w.d.get j := by
    rw [held_d hp]
    simp [hj]
  have hdi : (Cauchy.held s t i w u).d.get i = 0 := by
    rw [held_d hp]
    simp [hp.speed]
  have hnodup : i ∉ rest.map Prod.snd ∧ (rest.map Prod.snd).Nodup := List.nodup_cons.mp h.nodup
  refine {
    sorted := h.sorted.of_cons
    nodup := hnodup.2
    time_nonneg := hp.time_pos.le
    time_le := fun e he => List.rel_of_pairwise_cons h.sorted he
    pending := fun e he => ?_
    still := fun j hj => ?_
    moving := fun j hj => ?_
    p_eq := held_p h
    c_eq := ?_
    f1_ge := held_f1 hm hu h
    f2_ge := held_f2 hm hu h
    f2_pos := ?_
    ahead := rfl
    lower := .inl ?_ }
  · have hne : e.2 ≠ i := fun heq => hnodup.1 (heq ▸ List.mem_map_of_mem he)
    obtain ⟨hpos, hmoves, hspeed, hlimit, hbetween⟩ := h.pending e (List.mem_cons_of_mem _ he)
    exact ⟨hpos, by rwa [hd hne], by rwa [hd hne], hlimit, hbetween⟩
  · rw [held_x hp]
    by_cases hji : j = i
    · subst hji
      rw [Function.update_self]
      exact hp.between
    · rw [Function.update_of_ne hji]
      exact h.still j (hd hji ▸ hj)
  · have hji : j ≠ i := fun heq => hj (heq ▸ hdi)
    rw [hd hji] at hj ⊢
    refine (h.moving j hj).imp_left ?_
    rintro ⟨t', ht'⟩
    rcases List.mem_cons.mp ht' with heq | hmem
    · exact absurd (congrArg Prod.snd heq) hji
    · exact ⟨t', hmem⟩
  · rw [held_c h]
    exact congrArg _ (held_displacement hp).symm
  · simp only [Cauchy.held, Scalar.greatest_real]
    exact lt_max_of_lt_left hfloor
  · refine (congrArg _ (held_displacement hp)).trans_lt (h.model_lt hm hdt hgo fun ht => ?_)
    rw [ht, sub_zero]
    exact hp.time_pos

end OnPath

theorem walk_cons_of_lt {a : ℝ} (ha : w.ahead = some a) (h : a < t - w.t) : walk s ((t, i) :: rest) w = .ok w := by
  simp [walk, ha, h]

theorem walk_cons_of_le (h : ∀ a, w.ahead = some a → t - w.t ≤ a) :
    walk s ((t, i) :: rest) w = (pass s t i w).bind (walk s rest) := by
  cases ha : w.ahead with
  | none => simp [walk, ha]
  | some a => simp [walk, ha, (h a ha).not_gt]

theorem OnPath.walk_of_lt (h : OnPath s ((t, i) :: rest) w) (hlt : -w.f1 / w.f2 < t - w.t) :
    walk s ((t, i) :: rest) w = .ok w := walk_cons_of_lt h.ahead hlt

theorem OnPath.walk_of_le (h : OnPath s ((t, i) :: rest) w) (hgo : t - w.t ≤ -w.f1 / w.f2)
    {u : Vector ℝ (s.memory.size + s.memory.size)} (hu : s.memory.solveMiddle (s.memory.rowW i) = .ok u) :
    walk s ((t, i) :: rest) w = walk s rest (Cauchy.held s t i w u) := by
  rw [walk_cons_of_le fun a ha => ?_, pass_eq_map, hu]
  · rfl
  · cases h.ahead.symm.trans ha
    exact hgo

/-- What holds at the start of a walk, and again whenever the next breakpoint is not too far to be passed, holds where the
walk stops. -/
theorem walk_invariant {J : List (ℝ × Fin n) → Walk ℝ n s.memory.size → Prop}
    (hstep : ∀ {t i rest w u}, J ((t, i) :: rest) w → (∀ a, w.ahead = some a → t - w.t ≤ a) →
      s.memory.solveMiddle (s.memory.rowW i) = .ok u → J rest (held s t i w u))
    (h : J rest w) (hw : walk s rest w = .ok w') :
    ∃ rest', J rest' w' ∧ ∀ e ∈ rest'.head?, ∃ a, w'.ahead = some a ∧ a < e.1 - w'.t := by
  induction rest generalizing w with
  | nil =>
      cases hw
      exact ⟨[], h, nofun⟩
  | cons e rest ih =>
      obtain ⟨t, i⟩ := e
      by_cases hgo : ∀ a, w.ahead = some a → t - w.t ≤ a
      · rw [walk_cons_of_le hgo] at hw
        obtain ⟨w1, hpass, hw⟩ := bind_eq_ok hw
        rw [pass_eq_map] at hpass
        obtain ⟨u, hu, rfl⟩ := map_eq_ok hpass
        exact ih (hstep h hgo hu) hw
      · push Not at hgo
        obtain ⟨a, ha, hlt⟩ := hgo
        rw [walk_cons_of_lt ha hlt] at hw
        cases hw
        refine ⟨(t, i) :: rest, h, fun e he => ?_⟩
        cases he
        exact ⟨a, ha, hlt⟩

theorem OnPath.stops (h : OnPath s rest w) (hstop : ∀ e ∈ rest.head?, ∃ a, w.ahead = some a ∧ a < e.1 - w.t) :
    ∀ e ∈ rest, -w.f1 / w.f2 < e.1 - w.t := by
  cases rest with
  | nil => nofun
  | cons e rest =>
      obtain ⟨a, ha, hlt⟩ := hstop e rfl
      cases h.ahead.symm.trans ha
      intro e' he
      rcases List.mem_cons.mp he with rfl | hmem
      · exact hlt
      · exact hlt.trans_le (sub_le_sub_right (List.rel_of_pairwise_cons h.sorted hmem) _)

theorem walk_onPath (hm : s.memory.Sound) (hfloor : 0 < s.floor) (h : OnPath s rest w) (hw : walk s rest w = .ok w') :
    ∃ rest', OnPath s rest' w' ∧ ∀ e ∈ rest', -w'.f1 / w'.f2 < e.1 - w'.t := by
  obtain ⟨rest', h', hstop⟩ := walk_invariant (J := OnPath s)
    (fun h hgo hu => h.held hm hfloor (hgo _ h.ahead) hu) h hw
  exact ⟨rest', h', h'.stops hstop⟩

/-- What the first minimum along the path is known for: it lies in the box and below the start. -/
structure Lower (b : Box ℝ n) (m : Memory ℝ n) (x g : Vector ℝ n) (p : CauchyPoint ℝ n m.size) : Prop where
  inside : b.Inside p.x
  c_eq : p.c.get = m.matrixW.toMatrixᵀ *ᵥ (p.x.get - x.get)
  model_neg : m.model g.get (p.x.get - x.get) < 0

theorem position_between (hx : s.box.Inside s.x) (h : OnPath s rest w) (ht : 0 ≤ t) (hle : ∀ e ∈ rest, t ≤ e.1) (i : Fin n) :
    Limit.Between (s.box.lower.get i) (s.box.upper.get i) (position s w t i) := by
  rw [position]
  split_ifs with hd
  · exact h.still i hd
  · rcases h.moving i hd with ⟨t', hmem⟩ | haway
    · have hp := h.pending _ hmem
      rw [hp.speed]
      exact (hx i).along hp.between ht (hle _ hmem)
    · exact haway t ht

/-- How far the walk goes on from where it has come to. -/
noncomputable def rise (s : Setting ℝ n) (w : Walk ℝ n s.memory.size) : ℝ :=
  max (match w.ahead with
    | some a => a
    | none => -w.f1 / s.floor) 0

theorem finish_eq (w : Walk ℝ n s.memory.size) : finish s w =
    { x := s.box.project (.ofFn (position s w (w.t + rise s w))), c := w.c + Vec.scale (rise s w) w.p, free := w.free,
      t := w.t + rise s w, passed := w.passed } := by
  cases hahead : w.ahead <;>
    simp only [finish, hahead, Scalar.isFinite_real, if_true, Scalar.greatest_real, bne_iff_ne, ne_eq, ite_not,
      rise] <;>
    rfl

theorem OnPath.rise_eq (h : OnPath s rest w) : rise s w = max (-w.f1 / w.f2) 0 := by rw [rise, h.ahead]

theorem rise_nonneg : 0 ≤ rise s w := le_max_right _ _

/-- Where the walk stops, the model does not fall any further. -/
theorem OnPath.rise_slope (h : OnPath s rest w) : 0 ≤ w.f1 + rise s w * w.f2 := by
  rw [h.rise_eq]
  rcases le_total 0 (-w.f1 / w.f2) with hpos | hneg
  · rw [max_eq_left hpos, div_mul_cancel₀ _ h.f2_pos.ne', add_neg_cancel]
  · rw [max_eq_right hneg, zero_mul, add_zero]
    by_contra hf1
    exact hneg.not_gt (div_pos (neg_pos.mpr (not_le.mp hf1)) h.f2_pos)

/-- The walk goes no further than to the next breakpoint. -/
theorem OnPath.rise_le (h : OnPath s rest w) (hstop : ∀ e ∈ rest, -w.f1 / w.f2 < e.1 - w.t) :
    ∀ e ∈ rest, w.t + rise s w ≤ e.1 := by
  intro e he
  rw [h.rise_eq, ← le_sub_iff_add_le']
  exact max_le (hstop e he).le (sub_nonneg.mpr (h.time_le e he))

theorem moved_inside (hx : s.box.Inside s.x) (h : OnPath s rest w) (hstop : ∀ e ∈ rest, -w.f1 / w.f2 < e.1 - w.t) :
    s.box.Inside (.ofFn (position s w (w.t + rise s w))) := by
  intro i
  rw [Vec.get_ofFn]
  exact position_between hx h (add_nonneg h.time_nonneg rise_nonneg) (h.rise_le hstop) i

theorem finish_x (hx : s.box.Inside s.x) (h : OnPath s rest w) (hstop : ∀ e ∈ rest, -w.f1 / w.f2 < e.1 - w.t) :
    (finish s w).x = .ofFn (position s w (w.t + rise s w)) := by
  rw [finish_eq]
  exact Box.project_of_inside (moved_inside hx h hstop)

theorem finish_displacement (hx : s.box.Inside s.x) (h : OnPath s rest w)
    (hstop : ∀ e ∈ rest, -w.f1 / w.f2 < e.1 - w.t) :
    (finish s w).x.get - s.x.get = displacement s w w.t + rise s w • w.d.get := by
  rw [finish_x hx h hstop, ← displacement_add, Vec.get_ofFn_eq]
  rfl

theorem finish_lower (hm : s.memory.Sound) (hx : s.box.Inside s.x) (h : OnPath s rest w)
    (hstop : ∀ e ∈ rest, -w.f1 / w.f2 < e.1 - w.t) : Lower s.box s.memory s.x s.g (finish s w) := by
  have hx' := finish_displacement hx h hstop
  refine ⟨?_, ?_, ?_⟩
  · rw [finish_x hx h hstop]
    exact moved_inside hx h hstop
  · rw [hx', mulVec_add, mulVec_smul, ← h.c_eq, ← h.p_eq, finish_eq, Vec.get_add, Vec.get_scale_eq]
  · rw [hx', h.rise_eq]
    rcases lt_or_ge w.f1 0 with hf1 | hf1
    · have hpos : 0 < -w.f1 / w.f2 := div_pos (neg_pos.mpr hf1) h.f2_pos
      rw [max_eq_left hpos.le]
      exact h.model_lt hm hpos.le le_rfl fun _ => hpos
    · rw [max_eq_right (div_nonpos_of_nonpos_of_nonneg (neg_nonpos.mpr hf1) h.f2_pos.le), zero_smul, add_zero]
      exact h.lower.resolve_right fun hr => hf1.not_gt hr.2.2

theorem legs_course {b : Box ℝ n} {x g : Vector ℝ n} (hx : b.Inside x) (i : Fin n) :
    Leg.Course (b.lower.get i) (b.upper.get i) (x.get i) (g.get i) ((b.legs x g).get i) := by
  rw [Box.legs, Vec.get_ofFn]
  exact Leg.of_course (hx i)

theorem speed_eq {b : Box ℝ n} {x g : Vector ℝ n} (hx : b.Inside x) (i : Fin n) :
    ((b.legs x g).get i).speed = 0 ∨ ((b.legs x g).get i).speed = -g.get i := by
  have hcourse := legs_course (g := g) hx i
  generalize (b.legs x g).get i = leg at hcourse
  cases hcourse with
  | still => exact .inl rfl
  | away => exact .inr rfl
  | bound => exact .inr rfl

theorem speeds_ne_zero {b : Box ℝ n} {x g : Vector ℝ n} (hx : b.Inside x) (h : (b.projectedGradient x g).get ≠ 0) :
    ((b.legs x g).map Leg.speed).get ≠ 0 := by
  intro hzero
  refine h (funext fun i => ?_)
  have hi : ((b.legs x g).get i).speed = 0 := by
    rw [← Vec.get_map Leg.speed]
    exact congrFun hzero i
  have hclamp := (legs_course (g := g) hx i).clamp_of_speed_eq_zero hi zero_le_one
  rw [one_mul] at hclamp
  rw [Box.get_projectedGradient, hclamp, sub_self, Pi.zero_apply]

theorem dot_speeds {b : Box ℝ n} {x g : Vector ℝ n} (hx : b.Inside x) :
    ((b.legs x g).map Leg.speed).get ⬝ᵥ g.get =
      -(((b.legs x g).map Leg.speed).get ⬝ᵥ ((b.legs x g).map Leg.speed).get) := by
  rw [← dotProduct_neg]
  refine Finset.sum_congr rfl fun i _ => ?_
  rw [Pi.neg_apply, Vec.get_map]
  rcases speed_eq (g := g) hx i with he | he
  · rw [he, zero_mul, zero_mul]
  · rw [he, neg_neg]

theorem start_pending (hx : s.box.Inside s.x) {f2 : ℝ} {e : ℝ × Fin n} (he : e ∈ breakpoints (s.box.legs s.x s.g)) :
    Pending s (start s (s.box.legs s.x s.g) f2) e.1 e.2 := by
  obtain ⟨ht, hstop⟩ := mem_breakpoints.mp he
  have hcourse := legs_course (g := s.g) hx e.2
  have hi : (start s (s.box.legs s.x s.g) f2).d.get e.2 = ((s.box.legs s.x s.g).get e.2).speed := by
    rw [start, Vec.get_map]
  generalize (s.box.legs s.x s.g).get e.2 = leg at hi hstop hcourse
  cases hcourse with
  | still _ hno => exact absurd hstop (hno _ ht)
  | away => cases hstop
  | bound hpos hg hlimit hbetween =>
      cases hstop
      exact ⟨ht, fun h0 => hg (neg_eq_zero.mp (hi.symm.trans h0)), hi, hlimit, hbetween⟩

theorem start_displacement (f2 : ℝ) : displacement s (start s (s.box.legs s.x s.g) f2) 0 = 0 := by
  funext i
  simp [displacement, position, start]

theorem start_slope (hx : s.box.Inside s.x) (f2 : ℝ) :
    slope s (start s (s.box.legs s.x s.g) f2) = (start s (s.box.legs s.x s.g) f2).f1 := by
  refine (congrArg (fun z => ((s.box.legs s.x s.g).map Leg.speed).get ⬝ᵥ (s.g.get + s.memory.hessian *ᵥ z))
    (start_displacement f2)).trans ?_
  rw [mulVec_zero, add_zero, dot_speeds hx, start, Vec.dot_real]

theorem start_onPath (hm : s.memory.Sound) (hx : s.box.Inside s.x) {d : Vector ℝ n} {f2 : ℝ}
    (hd : d = (s.box.legs s.x s.g).map Leg.speed) (hne : d.get ≠ 0) (hf2 : f2 = d.get ⬝ᵥ (s.memory.hessian *ᵥ d.get)) :
    OnPath s (breakpoints (s.box.legs s.x s.g)) (start s (s.box.legs s.x s.g) f2) := by
  have hpos : 0 < f2 := hf2 ▸ posDef_pos hm.hessian_posDef hne
  have hw : (start s (s.box.legs s.x s.g) f2).d = d := hd.symm
  refine {
    sorted := breakpoints_sorted
    nodup := breakpoints_nodup
    time_nonneg := le_rfl
    time_le := fun e he => (mem_breakpoints.mp he).1.le
    pending := fun e he => start_pending hx he
    still := fun i _ => hx i
    moving := fun i hi => ?_
    p_eq := ?_
    c_eq := ?_
    f1_ge := (start_slope hx f2).le
    f2_ge := ?_
    f2_pos := hpos
    ahead := if_pos hpos
    lower := .inr ⟨rfl, start_displacement f2, ?_⟩ }
  · have hcourse := legs_course (g := s.g) hx i
    have hmem (t : ℝ) : (t, i) ∈ breakpoints (s.box.legs s.x s.g) ↔ _ := mem_breakpoints
    rw [hw, hd, Vec.get_map] at hi ⊢
    generalize (s.box.legs s.x s.g).get i = leg at hi hcourse hmem
    cases hcourse with
    | still => exact absurd rfl hi
    | away _ haway => exact .inr haway
    | bound ht => exact .inl ⟨_, (hmem _).mpr ⟨ht, rfl⟩⟩
  · rw [hw, ← Memory.get_transposeW, hd]
    rfl
  · refine (funext fun i => ?_ : _ = (0 : Fin (s.memory.size + s.memory.size) → ℝ)).trans ?_
    · exact Vec.get_replicate 0 i
    · exact ((congrArg _ (start_displacement f2)).trans (mulVec_zero _)).symm
  · rw [hw]
    exact hf2.ge
  · rw [start, ← hd, Vec.dot_real]
    exact neg_neg_of_pos (dotProduct_self_pos hne)

/-- The second derivative of the model where the path starts. -/
noncomputable def startCurvature (b : Box ℝ n) (m : Memory ℝ n) (x g : Vector ℝ n) : ℝ :=
  ((b.legs x g).map Leg.speed).get ⬝ᵥ (m.hessian *ᵥ ((b.legs x g).map Leg.speed).get)

noncomputable abbrev setting (b : Box ℝ n) (m : Memory ℝ n) (x g : Vector ℝ n) : Setting ℝ n :=
  { box := b, memory := m, x, g, floor := Scalar.epsilon * startCurvature b m x g }

theorem startCurvature_pos {b : Box ℝ n} {m : Memory ℝ n} {x g : Vector ℝ n} (hm : m.Sound)
    (hne : ((b.legs x g).map Leg.speed).get ≠ 0) : 0 < startCurvature b m x g := posDef_pos hm.hessian_posDef hne

theorem setting_floor_pos {b : Box ℝ n} {m : Memory ℝ n} {x g : Vector ℝ n} (hm : m.Sound)
    (hne : ((b.legs x g).map Leg.speed).get ≠ 0) : 0 < (setting b m x g).floor :=
  mul_pos Scalar.epsilon_pos (startCurvature_pos hm hne)

/-- The second derivative with which the search for the first minimum starts. -/
noncomputable def opening (b : Box ℝ n) (m : Memory ℝ n) (x g : Vector ℝ n) : Except (Unsolved ℝ) ℝ :=
  let d := (b.legs x g).map Leg.speed
  let p := m.transposeW d
  (m.solveMiddle p).map fun solved => m.theta * Vec.dot d d - Vec.dot p solved

noncomputable def opened (b : Box ℝ n) (m : Memory ℝ n) (x g : Vector ℝ n) (f2 : ℝ) : Setting ℝ n :=
  { box := b, memory := m, x, g, floor := if f2 > 0 then Scalar.epsilon * f2 else Scalar.epsilon }

theorem point_eq_bind {b : Box ℝ n} {m : Memory ℝ n} {x g : Vector ℝ n}
    (hne : ((b.legs x g).map Leg.speed).get ≠ 0) : point b m x g = (opening b m x g).bind fun f2 =>
      (walk (opened b m x g f2) (breakpoints (b.legs x g)) (start (opened b m x g f2) (b.legs x g) f2)).map
        (finish (opened b m x g f2)) := by
  rw [point, if_neg (by simpa using (Vec.anyNonzero_iff _).mpr hne), opening]
  dsimp only
  cases m.solveMiddle (m.transposeW ((b.legs x g).map Leg.speed)) with
  | error why => rfl
  | ok u => rfl

theorem opening_eq {b : Box ℝ n} {m : Memory ℝ n} {x g : Vector ℝ n} (hm : m.Sound) {u : Vector ℝ (m.size + m.size)}
    (hu : m.solveMiddle (m.transposeW ((b.legs x g).map Leg.speed)) = .ok u) :
    opening b m x g = .ok (startCurvature b m x g) := by
  rw [opening, startCurvature, hm.dot_hessian hu, hu, Except.map, Vec.dot_real, Vec.dot_real, Memory.get_transposeW, dotProduct_comm u.get]

theorem point_eq_map {b : Box ℝ n} {m : Memory ℝ n} {x g : Vector ℝ n} (hm : m.Sound)
    (hne : ((b.legs x g).map Leg.speed).get ≠ 0) {u : Vector ℝ (m.size + m.size)}
    (hu : m.solveMiddle (m.transposeW ((b.legs x g).map Leg.speed)) = .ok u) : point b m x g =
      (walk (setting b m x g) (breakpoints (b.legs x g))
        (start (setting b m x g) (b.legs x g) (startCurvature b m x g))).map (finish (setting b m x g)) := by
  rw [point_eq_bind hne, opening_eq hm hu, Except.bind]
  unfold opened
  rw [if_pos (startCurvature_pos hm hne)]

theorem point_eq_ok {b : Box ℝ n} {m : Memory ℝ n} {x g : Vector ℝ n} {p : CauchyPoint ℝ n m.size} (hm : m.Sound)
    (hne : ((b.legs x g).map Leg.speed).get ≠ 0) (h : point b m x g = .ok p) :
    ∃ w, walk (setting b m x g) (breakpoints (b.legs x g))
        (start (setting b m x g) (b.legs x g) (startCurvature b m x g)) = .ok w ∧ finish (setting b m x g) w = p := by
  have hsolved := h
  rw [point, if_neg (by simpa using (Vec.anyNonzero_iff _).mpr hne)] at hsolved
  obtain ⟨u, hu, -⟩ := bind_eq_ok hsolved
  rw [point_eq_map hm hne hu] at h
  exact map_eq_ok h

theorem setting_onPath {b : Box ℝ n} {m : Memory ℝ n} {x g : Vector ℝ n} (hm : m.Sound) (hx : b.Inside x)
    (hne : ((b.legs x g).map Leg.speed).get ≠ 0) : OnPath (setting b m x g) (breakpoints (b.legs x g))
      (start (setting b m x g) (b.legs x g) (startCurvature b m x g)) :=
  start_onPath (s := setting b m x g) hm hx rfl hne rfl

theorem point_lower_of_speeds {b : Box ℝ n} {m : Memory ℝ n} {x g : Vector ℝ n} {p : CauchyPoint ℝ n m.size}
    (hm : m.Sound) (hx : b.Inside x) (hne : ((b.legs x g).map Leg.speed).get ≠ 0) (h : point b m x g = .ok p) :
    Lower b m x g p := by
  obtain ⟨w, hw, rfl⟩ := point_eq_ok hm hne h
  obtain ⟨rest, honPath, hstop⟩ := walk_onPath hm (setting_floor_pos hm hne) (setting_onPath hm hx hne) hw
  exact finish_lower hm hx honPath hstop

/-- The first minimum along the path lies in the box and, seen by the model, below the start. -/
theorem point_lower {b : Box ℝ n} {m : Memory ℝ n} {x g : Vector ℝ n} {p : CauchyPoint ℝ n m.size} (hm : m.Sound)
    (hx : b.Inside x) (hg : (b.projectedGradient x g).get ≠ 0) (h : point b m x g = .ok p) : Lower b m x g p :=
  point_lower_of_speeds hm hx (speeds_ne_zero hx hg) h

theorem exists_walk (hs : ∀ u, ∃ z, s.memory.solveMiddle u = .ok z) (rest : List (ℝ × Fin n))
    (w : Walk ℝ n s.memory.size) : ∃ w', walk s rest w = .ok w' := by
  induction rest generalizing w with
  | nil => exact ⟨w, rfl⟩
  | cons e rest ih =>
      obtain ⟨t, i⟩ := e
      obtain ⟨u, hu⟩ := hs (s.memory.rowW i)
      have hpass : pass s t i w = .ok (held s t i w u) := by
        rw [pass_eq_map, hu]
        rfl
      obtain ⟨w', hw'⟩ := ih (held s t i w u)
      simp only [walk, hpass]
      split_ifs
      · exact ⟨w, rfl⟩
      · exact ⟨w', hw'⟩

/-- A memory that solves its middle systems never breaks down on the path. -/
theorem exists_point {b : Box ℝ n} {m : Memory ℝ n} (hs : ∀ u, ∃ z, m.solveMiddle u = .ok z) (x g : Vector ℝ n) :
    ∃ p, point b m x g = .ok p := by
  obtain ⟨u, hu⟩ := hs (m.transposeW ((b.legs x g).map Leg.speed))
  simp only [point]
  rw [hu]
  split_ifs
  · exact ⟨_, rfl⟩
  · exact (exists_walk (s := { box := b, memory := m, x, g, floor := _ }) hs _ _).elim fun w hw =>
      ⟨_, congrArg (Except.map _) hw⟩

theorem point_of_isEmpty {b : Box ℝ n} {m : Memory ℝ n} (he : m.isEmpty = true) (x g : Vector ℝ n) :
    ∃ p, point b m x g = .ok p :=
  exists_point (fun u => ⟨u, Memory.solveMiddle_of_isEmpty he u⟩) x g

end BoxBfgs.Cauchy
