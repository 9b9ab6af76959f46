import BoxBfgs.Proofs.Cauchy.Minimum

namespace BoxBfgs.Cauchy

open Matrix

variable {n : Nat}

/-- The walks that the search goes through, with the breakpoints that are left. The flag tells whether the floor has stood in
for a second derivative by then. -/
inductive Stage (s : Setting ℝ n) (f2 : ℝ) : List (ℝ × Fin n) → Walk ℝ n s.memory.size → Bool → Prop
  | start : Stage s f2 (breakpoints (s.box.legs s.x s.g)) (start s (s.box.legs s.x s.g) f2) false
  | pass {t : ℝ} {i : Fin n} {rest : List (ℝ × Fin n)} {w w' : Walk ℝ n s.memory.size} {lifted : Bool}
      {u : Vector ℝ (s.memory.size + s.memory.size)} (h : Stage s f2 ((t, i) :: rest) w lifted)
      (hgo : ∀ a, w.ahead = some a → t - w.t ≤ a) (hu : s.memory.solveMiddle (s.memory.rowW i) = .ok u)
      (hw : pass s t i w = .ok w') : Stage s f2 rest w' (lifted || decide (unfloored s i w u < s.floor))

section

variable {s : Setting ℝ n} {f2 : ℝ} {rest : List (ℝ × Fin n)} {w w' : Walk ℝ n s.memory.size} {lifted : Bool} {t : ℝ}
  {i : Fin n} {u : Vector ℝ (s.memory.size + s.memory.size)}

theorem pass_eq_held (hu : s.memory.solveMiddle (s.memory.rowW i) = .ok u) : pass s t i w = .ok (held s t i w u) := by
  rw [pass_eq_map, hu]
  rfl

/-- From each stage the walk goes on as it does from the start. -/
theorem Stage.walk_eq (h : Stage s f2 rest w lifted) :
    walk s rest w = walk s (breakpoints (s.box.legs s.x s.g)) (Cauchy.start s (s.box.legs s.x s.g) f2) := by
  induction h with
  | start => rfl
  | pass _ hgo _ hw ih =>
      rw [← ih, walk_cons_of_le hgo, hw]
      rfl

/-- A stage, after one for each smaller number of breakpoints. -/
structure Staged (s : Setting ℝ n) (f2 : ℝ) (rest : List (ℝ × Fin n)) (w : Walk ℝ n s.memory.size) : Prop where
  last : ∃ lifted, Stage s f2 rest w lifted
  each : ∀ k ≤ w.passed, ∃ rest w lifted, Stage s f2 rest w lifted ∧ w.passed = k

theorem start_staged (s : Setting ℝ n) (f2 : ℝ) :
    Staged s f2 (breakpoints (s.box.legs s.x s.g)) (start s (s.box.legs s.x s.g) f2) := by
  refine ⟨⟨false, .start⟩, ?_⟩
  intro k hk
  exact ⟨_, _, _, .start, (Nat.le_zero.mp hk).symm⟩

theorem Staged.held (h : Staged s f2 ((t, i) :: rest) w) (hgo : ∀ a, w.ahead = some a → t - w.t ≤ a)
    (hu : s.memory.solveMiddle (s.memory.rowW i) = .ok u) : Staged s f2 rest (held s t i w u) := by
  obtain ⟨lifted, hlast⟩ := h.last
  have hnext := hlast.pass hgo hu (pass_eq_held hu)
  refine ⟨⟨_, hnext⟩, ?_⟩
  intro k hk
  rcases Nat.le_succ_iff.mp hk with hle | rfl
  · exact h.each k hle
  · exact ⟨_, _, _, hnext, rfl⟩

/-- What holds at a stage: where the walk is, and that its derivatives are those of the model until the floor gets in. -/
structure Tracked (s : Setting ℝ n) (rest : List (ℝ × Fin n)) (w : Walk ℝ n s.memory.size) (lifted : Bool) : Prop where
  onPath : OnPath s rest w
  follows : Follows s rest w
  exact : lifted = false → w.f1 = slope s w ∧ w.f2 = curvature s w

theorem Tracked.held (hm : s.memory.Sound) (hx : s.box.Inside s.x) (hfloor : 0 < s.floor)
    (h : Tracked s ((t, i) :: rest) w lifted) (hgo : ∀ a, w.ahead = some a → t - w.t ≤ a)
    (hu : s.memory.solveMiddle (s.memory.rowW i) = .ok u) :
    Tracked s rest (held s t i w u) (lifted || decide (unfloored s i w u < s.floor)) := by
  refine ⟨h.onPath.held hm hfloor (hgo _ h.onPath.ahead) hu, h.follows.held hx h.onPath u, fun hlifted => ?_⟩
  obtain ⟨hbefore, hraw⟩ := Bool.or_eq_false_iff.mp hlifted
  obtain ⟨hf1, hf2⟩ := h.exact hbefore
  have hle : s.floor ≤ unfloored s i w u := not_lt.mp (of_decide_eq_false hraw)
  rw [unfloored_eq hm hu h.onPath, hf2, sub_self, zero_add] at hle
  obtain ⟨hf1', hf2'⟩ := held_of_exact hm hu h.onPath hf1 hf2
  exact ⟨hf1', hf2'.trans (max_eq_right hle)⟩

theorem Stage.tracked (hm : s.memory.Sound) (hx : s.box.Inside s.x) (hfloor : 0 < s.floor)
    (hne : ((s.box.legs s.x s.g).map Leg.speed).get ≠ 0) (hf2 : f2 = startCurvature s.box s.memory s.x s.g)
    (h : Stage s f2 rest w lifted) : Tracked s rest w lifted := by
  induction h with
  | start =>
      exact ⟨start_onPath hm hx rfl hne hf2, start_follows hx f2, fun _ => ⟨(start_slope hx f2).symm, hf2⟩⟩
  | pass _ hgo hu hw ih =>
      rw [pass_eq_held hu] at hw
      cases hw
      exact ih.held hm hx hfloor hgo hu

theorem Tracked.displacement_eq (hx : s.box.Inside s.x) (h : Tracked s rest w lifted) :
    displacement s w w.t = (s.box.path s.x s.g w.t).get - s.x.get := by
  rw [displacement, h.follows.position_eq hx h.onPath le_rfl h.onPath.time_le]

end

variable {b : Box ℝ n} {m : Memory ℝ n} {x g : Vector ℝ n} {p : CauchyPoint ℝ n m.size} {rest : List (ℝ × Fin n)}
  {w : Walk ℝ n m.size} {lifted : Bool}

/-- The stages of the search for the first minimum, which can break down before the first one. -/
def Visited (b : Box ℝ n) (m : Memory ℝ n) (x g : Vector ℝ n) (rest : List (ℝ × Fin n)) (w : Walk ℝ n m.size)
    (lifted : Bool) : Prop :=
  ∃ f2, opening b m x g = .ok f2 ∧ Stage (opened b m x g f2) f2 rest w lifted

section

variable (hm : m.Sound) (hne : ((b.legs x g).map Leg.speed).get ≠ 0)

include hm hne

/-- Where the middle system is solved, the search starts with the curvature of the model. -/
theorem visited_iff : Visited b m x g rest w lifted ↔ opening b m x g = .ok (startCurvature b m x g) ∧
    Stage (setting b m x g) (startCurvature b m x g) rest w lifted := by
  constructor
  · rintro ⟨f2, hopening, hstage⟩
    obtain ⟨u, hu, -⟩ := map_eq_ok hopening
    cases (opening_eq hm hu).symm.trans hopening
    unfold opened at hstage
    rw [if_pos (startCurvature_pos hm hne)] at hstage
    exact ⟨hopening, hstage⟩
  · rintro ⟨hopening, hstage⟩
    refine ⟨_, hopening, ?_⟩
    unfold opened
    rwa [if_pos (startCurvature_pos hm hne)]

theorem Visited.tracked (hx : b.Inside x) (h : Visited b m x g rest w lifted) :
    Tracked (setting b m x g) rest w lifted := by
  obtain ⟨-, hstage⟩ := (visited_iff hm hne).mp h
  exact hstage.tracked (s := setting b m x g) hm hx (setting_floor_pos hm hne) hne rfl

/-- What is left of a search behind some breakpoints is the walk from there. -/
theorem Visited.point_eq (h : Visited b m x g rest w lifted) :
    point b m x g = (walk (setting b m x g) rest w).map (finish (setting b m x g)) := by
  obtain ⟨hopening, hstage⟩ := (visited_iff hm hne).mp h
  obtain ⟨u, hu, -⟩ := map_eq_ok hopening
  rw [point_eq_map hm hne hu, hstage.walk_eq]

/-- A search ends at a stage from which it cannot pass a further breakpoint, and goes through one for each breakpoint that
it passes. -/
theorem point_staged (h : point b m x g = .ok p) :
    (∃ rest w lifted, Visited b m x g rest w lifted ∧ finish (setting b m x g) w = p ∧
      ∀ e ∈ rest.head?, ∃ a, w.ahead = some a ∧ a < e.1 - w.t) ∧
    ∀ k ≤ p.passed, ∃ rest w lifted, Visited b m x g rest w lifted ∧ w.passed = k := by
  have hbind := h
  rw [point_eq_bind hne] at hbind
  obtain ⟨f2, hopening, -⟩ := bind_eq_ok hbind
  obtain ⟨u, hu, -⟩ := map_eq_ok hopening
  have hvisit {rest w lifted} (hstage : Stage (setting b m x g) (startCurvature b m x g) rest w lifted) :
      Visited b m x g rest w lifted := (visited_iff hm hne).mpr ⟨opening_eq hm hu, hstage⟩
  obtain ⟨w, hw, rfl⟩ := point_eq_ok hm hne h
  obtain ⟨rest, hend, hstop⟩ := walk_invariant (fun h hgo hu => h.held hgo hu) (start_staged _ _) hw
  obtain ⟨lifted, hlast⟩ := hend.last
  refine ⟨⟨rest, w, lifted, hvisit hlast, rfl, hstop⟩, ?_⟩
  intro k hk
  obtain ⟨rest, w, lifted, hstage, hpassed⟩ := hend.each k hk
  exact ⟨rest, w, lifted, hvisit hstage, hpassed⟩

end

/-- A search that can solve its middle systems comes to a point. It goes through a stage for each number of breakpoints up to
the one that it passes, goes on from each of them as it does from the start, and makes its point of the last one. What it
carries from one to the next is what the direction that is left and the displacement along the path give directly; only where
the floor has got in can the derivatives be larger than those of the model. -/
theorem stages_direct (hm : m.Reachable) (hx : b.Inside x) (hne : ((b.legs x g).map Leg.speed).get ≠ 0) :
    (m.isEmpty = true ∨ (∃ f, m.factor = .ok f) → ∃ p, point b m x g = .ok p) ∧
    (∀ p, point b m x g = .ok p →
      (∃ rest w lifted, Visited b m x g rest w lifted ∧ w.passed = p.passed ∧ finish (setting b m x g) w = p ∧
        ∀ e ∈ rest.head?, ∃ a, w.ahead = some a ∧ a < e.1 - w.t) ∧
      ∀ k ≤ p.passed, ∃ rest w lifted, Visited b m x g rest w lifted ∧ w.passed = k) ∧
    ∀ rest w lifted, Visited b m x g rest w lifted →
      point b m x g = (walk (setting b m x g) rest w).map (finish (setting b m x g)) ∧
      rest = (breakpoints (b.legs x g)).drop w.passed ∧ w.d.get = heading b x g w.passed ∧
      w.p.get = m.matrixW.toMatrixᵀ *ᵥ w.d.get ∧
      w.c.get = m.matrixW.toMatrixᵀ *ᵥ ((b.path x g w.t).get - x.get) ∧
      (lifted = false →
        w.f1 = g.get ⬝ᵥ w.d.get + w.d.get ⬝ᵥ (m.hessian *ᵥ ((b.path x g w.t).get - x.get)) ∧
          w.f2 = w.d.get ⬝ᵥ (m.hessian *ᵥ w.d.get)) ∧
      g.get ⬝ᵥ w.d.get + w.d.get ⬝ᵥ (m.hessian *ᵥ ((b.path x g w.t).get - x.get)) ≤ w.f1 ∧
      w.d.get ⬝ᵥ (m.hessian *ᵥ w.d.get) ≤ w.f2 := by
  refine ⟨?_, fun p h => ?_, fun rest w lifted h => ?_⟩
  · rintro (hempty | ⟨f, hf⟩)
    · exact point_of_isEmpty hempty x g
    · exact exists_point (Memory.exists_solveMiddle hf) x g
  · obtain ⟨⟨rest, w, lifted, hlast, rfl, hstop⟩, hstages⟩ := point_staged hm.sound hne h
    exact ⟨⟨rest, w, lifted, hlast, rfl, rfl, hstop⟩, hstages⟩
  · have ht := h.tracked hm.sound hne hx
    have hz := ht.displacement_eq hx
    have hslope : slope (setting b m x g) w =
        g.get ⬝ᵥ w.d.get + w.d.get ⬝ᵥ (m.hessian *ᵥ ((b.path x g w.t).get - x.get)) := by
      rw [slope, hz, dotProduct_add, dotProduct_comm]
    refine ⟨h.point_eq hm.sound hne, ht.follows.ahead.symm, ht.follows.direction, ht.onPath.p_eq, ?_, ?_, ?_, ht.onPath.f2_ge⟩
    · rw [← hz]
      exact ht.onPath.c_eq
    · rw [← hslope]
      exact ht.exact
    · rw [← hslope]
      exact ht.onPath.f1_ge

/-- Behind the first one of the two coordinates the floor has not got in. -/
theorem Tie.visited {m : Memory ℝ 3} {c : ℝ} (h : Tie m c) (hc : 0 ≤ c) : ∃ w,
    Visited tieBox m tieStart tieGradient [(1 / 32, 1)] w false ∧ w.t = 1 / 32 ∧ w.d.get = ![0, -1, 1] := by
  have hm := h.reachable.sound
  have hp := h.tieWalk_onPath
  obtain ⟨u, hu⟩ := h.solves (m.rowW 0)
  obtain ⟨v, hv⟩ := h.solves (m.transposeW ((tieBox.legs tieStart tieGradient).map Leg.speed))
  obtain ⟨hd, hcurvature⟩ := h.held_first u
  have hfloor : ¬unfloored (tieSetting m) 0 (tieWalk m) u < (tieSetting m).floor := by
    have hstart : (tieWalk m).f2 = curvature (tieSetting m) (tieWalk m) := rfl
    rw [unfloored_eq hm hu hp, hstart, sub_self, zero_add, hcurvature, not_lt]
    exact h.floor_le (by linarith)
  have hstart : Stage (tieSetting m) (startCurvature tieBox m tieStart tieGradient) [(1 / 32, 0), (1 / 32, 1)]
      (tieWalk m) false := by
    rw [← tie_breakpoints]
    exact .start
  have hnext := hstart.pass (fun a ha => by cases hp.ahead.symm.trans ha; exact h.tieWalk_go) hu (pass_eq_held hu)
  rw [decide_eq_false hfloor] at hnext
  exact ⟨held (tieSetting m) (1 / 32) 0 (tieWalk m) u,
    (visited_iff hm tie_speeds_ne_zero).mpr ⟨opening_eq hm hv, hnext⟩, rfl, hd⟩

theorem stages_direct_tie : ∃ w, tieMemory.Reachable ∧ tieBox.Inside tieStart ∧
    ((tieBox.legs tieStart tieGradient).map Leg.speed).get ≠ 0 ∧
    Visited tieBox tieMemory tieStart tieGradient [(1 / 32, 1)] w false ∧
    point tieBox tieMemory tieStart tieGradient =
      (walk (tieSetting tieMemory) [(1 / 32, 1)] w).map (finish (tieSetting tieMemory)) ∧
    w.p.get = tieMemory.matrixW.toMatrixᵀ *ᵥ ![0, -1, 1] ∧
    w.c.get = tieMemory.matrixW.toMatrixᵀ *ᵥ ![-1 / 32, -1 / 32, 1 / 32] ∧ w.f1 = 1 / 4 ∧ w.f2 = 77 := by
  obtain ⟨w, hvisited, ht, hd⟩ := tie_memory.visited (by norm_num)
  have hz : (tieBox.path tieStart tieGradient w.t).get - tieStart.get = ![-1 / 32, -1 / 32, 1 / 32] := by
    rw [ht, tie_path le_rfl]
    funext i
    fin_cases i <;> simp [tieStart, Vec.get_eq_getElem] <;> norm_num
  obtain ⟨-, -, hdirect⟩ := stages_direct tie_memory.reachable tie_inside tie_speeds_ne_zero
  obtain ⟨hpoint, -, -, hp, hc, hexact, -, -⟩ := hdirect _ _ _ hvisited
  obtain ⟨hf1, hf2⟩ := hexact rfl
  rw [hd] at hp hf1 hf2
  rw [hz] at hc hf1
  refine ⟨w, tie_memory.reachable, tie_inside, tie_speeds_ne_zero, hvisited, hpoint, hp, hc, ?_, ?_⟩
  · rw [hf1, tie_memory.hessian_mulVec]
    simp [dotProduct, Fin.sum_univ_three, tieGradient, Vec.get_eq_getElem]
    norm_num
  · rw [hf2, tie_memory.dot_hessian]
    simp
    norm_num

end BoxBfgs.Cauchy
