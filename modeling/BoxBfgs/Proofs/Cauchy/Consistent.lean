import BoxBfgs.Proofs.Cauchy.Path

namespace BoxBfgs.Cauchy

open Matrix

variable {n : Nat} {b : Box ℝ n} {m : Memory ℝ n} {x g : Vector ℝ n} {p : CauchyPoint ℝ n m.size} {i : Fin n}

/-- How a point has been reached along the path. -/
structure Reached (b : Box ℝ n) (m : Memory ℝ n) (x g : Vector ℝ n) (p : CauchyPoint ℝ n m.size) : Prop where
  time_nonneg : 0 ≤ p.t
  x_eq : p.x = b.path x g p.t
  c_eq : p.c.get = m.matrixW.toMatrixᵀ *ᵥ (p.x.get - x.get)
  passed_le : p.passed ≤ (breakpoints (b.legs x g)).length
  free : ∀ i, p.free.get i = true ↔ ((b.legs x g).get i).starts = true ∧ i ∉ stopped b x g p.passed
  reached : ∀ e ∈ (breakpoints (b.legs x g)).take p.passed, e.1 ≤ p.t

theorem finish_reached {s : Setting ℝ n} {rest : List (ℝ × Fin n)} {w : Walk ℝ n s.memory.size} (hm : s.memory.Sound)
    (hx : s.box.Inside s.x) (hp : OnPath s rest w) (h : Follows s rest w)
    (hstop : ∀ e ∈ rest, -w.f1 / w.f2 < e.1 - w.t) : Reached s.box s.memory s.x s.g (finish s w) := by
  have hle : w.t ≤ w.t + rise s w := le_add_of_nonneg_right rise_nonneg
  have ht : (finish s w).t = w.t + rise s w := by rw [finish_eq]
  refine { time_nonneg := ?_, x_eq := ?_, c_eq := (finish_lower hm hx hp hstop).c_eq, passed_le := h.passed_le,
           free := h.free, reached := fun e he => ?_ }
  · rw [ht]
    exact hp.time_nonneg.trans hle
  · rw [ht, finish_x hx hp hstop, h.position_eq hx hp hle (hp.rise_le hstop)]
    exact Vec.ext_get (Vec.get_ofFn_eq _)
  · rw [ht]
    exact (h.reached e he).trans hle

theorem point_of_speeds_eq_zero (h : ((b.legs x g).map Leg.speed).get = 0) :
    point b m x g = .ok { x, c := .replicate _ 0, free := (b.legs x g).map Leg.starts, t := 0, passed := 0 } := by
  have hany : Vec.anyNonzero ((b.legs x g).map Leg.speed) = false := by
    rw [← Bool.not_eq_true, Vec.anyNonzero_iff, not_not]
    exact h
  rw [point, if_pos (by rw [hany]; rfl)]

theorem point_reached (hm : m.Sound) (hx : b.Inside x) (h : point b m x g = .ok p) : Reached b m x g p := by
  by_cases hne : ((b.legs x g).map Leg.speed).get = 0
  · rw [point_of_speeds_eq_zero hne] at h
    cases h
    refine { time_nonneg := le_rfl, x_eq := (path_of_speeds_eq_zero hx hne le_rfl).symm, c_eq := ?_,
             passed_le := Nat.zero_le _, free := fun i => ?_, reached := fun e he => absurd he List.not_mem_nil }
    · rw [sub_self, mulVec_zero]
      exact funext fun j => Vec.get_replicate 0 j
    · rw [Vec.get_map]
      exact (and_iff_left List.not_mem_nil).symm
  · obtain ⟨rest, w, hp, hf, -, hstop, rfl⟩ := point_invariant (J := fun _ _ => True) hm hx hne h trivial
      fun _ _ _ _ _ => trivial
    exact finish_reached hm hx hp hf hstop

namespace Reached

variable (h : Reached b m x g p)

include h

theorem mem_stopped (hi : p.free.get i = false) {t : ℝ} (ht : 0 < t) (hstop : ((b.legs x g).get i).stop = .fin t) :
    i ∈ stopped b x g p.passed := by
  by_contra hin
  have hstarts : ((b.legs x g).get i).starts = true := by simp [Leg.starts, Limit.undercuts, hstop, ht]
  rw [(h.free i).mpr ⟨hstarts, hin⟩] at hi
  cases hi

theorem at_limit (hx : b.Inside x) (hi : p.free.get i = false) :
    b.lower.get i = .fin (p.x.get i) ∨ b.upper.get i = .fin (p.x.get i) := by
  rw [h.x_eq]
  by_cases hin : i ∈ stopped b x g p.passed
  · obtain ⟨t, ht⟩ := Cauchy.mem_stopped hin
    obtain ⟨hpos, hstop⟩ := mem_breakpoints.mp (List.mem_of_mem_take ht)
    have hlimit := (legs_course (g := g) hx i).clamp_of_ge hpos hstop (h.reached _ ht)
    rw [← Box.get_path] at hlimit
    split_ifs at hlimit
    · exact .inr hlimit
    · exact .inl hlimit
  · have hstarts : ((b.legs x g).get i).starts = false := by
      rw [← Bool.not_eq_true]
      intro hstarts
      rw [(h.free i).mpr ⟨hstarts, hin⟩] at hi
      cases hi
    have hspeed := (legs_course (g := g) hx i).speed_of_not_starts hstarts
    rw [Box.get_path, (legs_course hx i).clamp_of_speed_eq_zero hspeed h.time_nonneg]
    rw [Box.legs, Vec.get_ofFn] at hstarts
    exact Leg.at_limit_of_not_starts (hx i) hstarts

theorem near (hx : b.Inside x) (hi : p.free.get i = true) (hstop : ((b.legs x g).get i).stop.undercuts p.t = true) :
    (g.get i < 0 → (b.upper.get i).undercuts (p.x.get i) = true) ∧
      (0 < g.get i → (b.lower.get i).exceeds (p.x.get i) = true) := by
  have hspeed : ((b.legs x g).get i).speed = -g.get i := by
    have hstarts := ((h.free i).mp hi).1
    rw [Box.legs, Vec.get_ofFn] at hstarts ⊢
    exact Leg.speed_of_starts hstarts
  have hplace : p.x.get i = x.get i + p.t * -g.get i := by
    rw [h.x_eq, Box.get_path, ← hspeed]
    refine (legs_course hx i).clamp_of_le (hx i) h.time_nonneg fun t ht heq => ?_
    rw [heq] at hstop
    exact (of_decide_eq_true hstop).le
  have hroom (hg : g.get i ≠ 0) := (legs_course (g := g) hx i).between_later
    (fun h0 => hg (neg_eq_zero.mp (hspeed.symm.trans h0))) h.time_nonneg hstop
  rw [hplace]
  constructor
  · intro hg
    obtain ⟨t, hlt, hbetween⟩ := hroom hg.ne
    exact Limit.undercuts_of_atMost hbetween.2 (by nlinarith)
  · intro hg
    obtain ⟨t, hlt, hbetween⟩ := hroom hg.ne'
    exact Limit.exceeds_of_atLeast hbetween.1 (by nlinarith)

theorem passed_eq_ncard :
    p.passed = {i | p.free.get i = false ∧ ∃ t, 0 < t ∧ ((b.legs x g).get i).stop = .fin t}.ncard := by
  have hset : {i | p.free.get i = false ∧ ∃ t, 0 < t ∧ ((b.legs x g).get i).stop = .fin t} =
      (stopped b x g p.passed).toFinset := by
    ext i
    rw [Set.mem_ofPred_eq, List.coe_toFinset, Set.mem_ofPred_eq]
    constructor
    · rintro ⟨hi, t, ht, hstop⟩
      exact h.mem_stopped hi ht hstop
    · intro hin
      obtain ⟨t, ht⟩ := Cauchy.mem_stopped hin
      refine ⟨?_, t, mem_breakpoints.mp (List.mem_of_mem_take ht)⟩
      rw [← Bool.not_eq_true, h.free i]
      exact fun hfree => hfree.2 hin
  rw [hset, Set.ncard_coe_finset, List.toFinset_card_of_nodup stopped_nodup, stopped, List.length_map, List.length_take,
    min_eq_left h.passed_le]

end Reached

/-- The parts of a point on the path agree with each other, ties and blocked coordinates included. -/
theorem point_consistent (hm : m.Reachable) (hx : b.Inside x) (h : point b m x g = .ok p) :
    p.x = b.path x g p.t ∧ b.Inside p.x ∧ p.c.get = m.matrixW.toMatrixᵀ *ᵥ (p.x.get - x.get) ∧
      (∀ i, p.free.get i = false → b.lower.get i = .fin (p.x.get i) ∨ b.upper.get i = .fin (p.x.get i)) ∧
      (∀ i, p.free.get i = true → ((b.legs x g).get i).stop.undercuts p.t = true →
        (g.get i < 0 → (b.upper.get i).undercuts (p.x.get i) = true) ∧
          (0 < g.get i → (b.lower.get i).exceeds (p.x.get i) = true)) ∧
      p.passed = {i | p.free.get i = false ∧ ∃ t, 0 < t ∧ ((b.legs x g).get i).stop = .fin t}.ncard := by
  have hr := point_reached hm.sound hx h
  have hin : b.Inside p.x := by
    rw [hr.x_eq]
    exact Box.project_inside hx _
  exact ⟨hr.x_eq, hin, hr.c_eq, fun i hi => hr.at_limit hx hi, fun i hi => hr.near hx hi, hr.passed_eq_ncard⟩

/-- Two coordinates that reach their limits at the same time, and one that goes on. -/
noncomputable def tieBox : Box ℝ 3 := ⟨#v[.fin 0, .fin 0, .negInf], #v[.posInf, .posInf, .posInf]⟩

noncomputable def tieStart : Vector ℝ 3 := #v[1 / 32, 1 / 32, 0]

def tieGradient : Vector ℝ 3 := #v[1, 1, -1]

theorem tie_inside : tieBox.Inside tieStart := by
  intro i
  fin_cases i <;> simp [tieBox, tieStart, Limit.Between, Vec.get_eq_getElem]

def tiePair : Pair ℝ 3 := ⟨#v[1, 0, 0], #v[1, -5, 0]⟩

noncomputable def tieMemory : Memory ℝ 3 := (Memory.empty 3 1).append tiePair

/-- The memories that the example is about. -/
structure Tie (m : Memory ℝ 3) (c : ℝ) : Prop where
  reachable : m.Reachable
  solves : ∀ u, ∃ z, m.solveMiddle u = .ok z
  hessian_mulVec : ∀ v, m.hessian *ᵥ v = ![(52 - c) * v 0 - 5 * v 1, -5 * v 0 + c * v 1, 26 * v 2]

/-- A pair with these products gives one of the memories of the example. -/
theorem tie_of_pair {p : Pair ℝ 3} (hp : p.UnitStep 26) {c : ℝ}
    (h : ∀ v, (26 : ℝ) • (v - (p.s.get ⬝ᵥ v) • p.s.get) + (p.y.get ⬝ᵥ v) • p.y.get =
      ![(52 - c) * v 0 - 5 * v 1, -5 * v 0 + c * v 1, 26 * v 2]) :
    Tie ((Memory.empty 3 1).append p) c := by
  refine ⟨Memory.reachable_single (Memory.admissible_unitStep hp), fun u => ?_, fun v => ?_⟩
  · obtain ⟨f, hf⟩ := Memory.factor_unitStep hp
    exact Memory.exists_solveMiddle hf u
  · rw [Memory.hessian_unitStep hp, h]

theorem tiePair_unitStep : tiePair.UnitStep 26 where
  step := by simp [tiePair, dotProduct, Fin.sum_univ_three, Vec.get_eq_getElem]
  curvature := by simp [tiePair, Pair.curvature, dotProduct, Fin.sum_univ_three, Vec.get_eq_getElem]
  change := by norm_num [tiePair, dotProduct, Fin.sum_univ_three, Vec.get_eq_getElem]
  one_le := by norm_num
  le := by norm_num

theorem tie_memory : Tie tieMemory 51 := by
  apply tie_of_pair tiePair_unitStep
  intro v
  funext i
  fin_cases i <;> simp [tiePair, dotProduct, Fin.sum_univ_three, Vec.get_eq_getElem] <;> ring

theorem point_consistent_tie : ∃ p, tieMemory.Reachable ∧ tieBox.Inside tieStart ∧
    point tieBox tieMemory tieStart tieGradient = .ok p ∧ p.x = tieBox.path tieStart tieGradient p.t ∧ tieBox.Inside p.x ∧
    p.passed = {i | p.free.get i = false ∧
      ∃ t, 0 < t ∧ ((tieBox.legs tieStart tieGradient).get i).stop = .fin t}.ncard := by
  obtain ⟨p, hp⟩ := exists_point (b := tieBox) tie_memory.solves tieStart tieGradient
  obtain ⟨hx, hin, -, -, -, hpassed⟩ := point_consistent tie_memory.reachable tie_inside hp
  exact ⟨p, tie_memory.reachable, tie_inside, hp, hx, hin, hpassed⟩

end BoxBfgs.Cauchy
