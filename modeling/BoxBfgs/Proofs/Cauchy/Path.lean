import BoxBfgs.Proofs.Cauchy

namespace BoxBfgs

variable {n : Nat}

/-- The path down the gradient, held to the box. -/
noncomputable def Box.path (b : Box ℝ n) (x g : Vector ℝ n) (t : ℝ) : Vector ℝ n := b.project (x - Vec.scale t g)

theorem Box.get_path (b : Box ℝ n) (x g : Vector ℝ n) (t : ℝ) (i : Fin n) :
    (b.path x g t).get i = Limit.clamp (b.lower.get i) (b.upper.get i) (x.get i - t * g.get i) := by
  rw [path, get_project, Vec.get_sub, Pi.sub_apply, Vec.get_scale]

namespace Cauchy

section

variable (b : Box ℝ n) (x g : Vector ℝ n)

/-- The coordinates that are held once a number of breakpoints is passed. -/
noncomputable def stopped (k : Nat) : List (Fin n) := ((breakpoints (b.legs x g)).take k).map Prod.snd

/-- The direction of the path once a number of breakpoints is passed. -/
noncomputable def heading (k : Nat) : Fin n → ℝ := fun i =>
  if i ∈ stopped b x g k then 0 else ((b.legs x g).get i).speed

end

variable {b : Box ℝ n} {m : Memory ℝ n} {x g : Vector ℝ n} {p : CauchyPoint ℝ n m.size} {k : Nat} {t τ : ℝ} {i : Fin n}
  {rest : List (ℝ × Fin n)}

theorem heading_zero : heading b x g 0 = ((b.legs x g).map Leg.speed).get := by
  funext i
  rw [heading, stopped, Vec.get_map]
  exact if_neg List.not_mem_nil

theorem stopped_succ (h : (breakpoints (b.legs x g)).drop k = (t, i) :: rest) :
    stopped b x g (k + 1) = stopped b x g k ++ [i] := by
  have hk : (breakpoints (b.legs x g))[k]? = some (t, i) := by rw [← List.head?_drop, h, List.head?_cons]
  rw [stopped, List.take_add_one, hk, List.map_append]
  rfl

theorem heading_succ (h : (breakpoints (b.legs x g)).drop k = (t, i) :: rest) :
    heading b x g (k + 1) = Function.update (heading b x g k) i 0 := by
  funext j
  rw [heading, stopped_succ h]
  by_cases hj : j = i
  · subst hj
    simp
  · simp [heading, hj]

theorem mem_stopped (h : i ∈ stopped b x g k) : ∃ t, (t, i) ∈ (breakpoints (b.legs x g)).take k := by
  obtain ⟨e, he, rfl⟩ := List.mem_map.mp h
  exact ⟨e.1, he⟩

theorem stopped_nodup : (stopped b x g k).Nodup := breakpoints_nodup.sublist ((List.take_sublist _ _).map _)

variable {s : Setting ℝ n} {w : Walk ℝ n s.memory.size}

/-- How the walk has followed the path up to where it has come, with the breakpoints that are still ahead. -/
structure Follows (s : Setting ℝ n) (rest : List (ℝ × Fin n)) (w : Walk ℝ n s.memory.size) : Prop where
  ahead : (breakpoints (s.box.legs s.x s.g)).drop w.passed = rest
  passed_le : w.passed ≤ (breakpoints (s.box.legs s.x s.g)).length
  direction : w.d.get = heading s.box s.x s.g w.passed
  free : ∀ i, w.free.get i = true ↔ ((s.box.legs s.x s.g).get i).starts = true ∧ i ∉ stopped s.box s.x s.g w.passed
  reached : ∀ e ∈ (breakpoints (s.box.legs s.x s.g)).take w.passed, e.1 ≤ w.t
  place : ∀ i, w.d.get i = 0 → ∀ τ, w.t ≤ τ → w.x.get i = (s.box.path s.x s.g τ).get i

theorem start_follows (hx : s.box.Inside s.x) (f2 : ℝ) :
    Follows s (breakpoints (s.box.legs s.x s.g)) (start s (s.box.legs s.x s.g) f2) where
  ahead := rfl
  passed_le := Nat.zero_le _
  direction := heading_zero.symm
  free i := by
    rw [start, Vec.get_map]
    exact (and_iff_left List.not_mem_nil).symm
  reached e he := absurd he List.not_mem_nil
  place i hi τ hτ := by
    rw [start, Vec.get_map] at hi
    rw [Box.get_path, (legs_course hx i).clamp_of_speed_eq_zero hi hτ]
    rfl

namespace Follows

theorem held (hx : s.box.Inside s.x) (hp : OnPath s ((t, i) :: rest) w) (h : Follows s ((t, i) :: rest) w)
    (u : Vector ℝ (s.memory.size + s.memory.size)) : Follows s rest (held s t i w u) := by
  have hpending : Pending s w t i := hp.pending _ List.mem_cons_self
  have ht : w.t ≤ t := hp.time_le _ List.mem_cons_self
  have htake : (breakpoints (s.box.legs s.x s.g)).take (w.passed + 1) =
      (breakpoints (s.box.legs s.x s.g)).take w.passed ++ [(t, i)] := by
    rw [List.take_add_one, ← List.head?_drop, h.ahead]
    rfl
  have hlt : w.passed < (breakpoints (s.box.legs s.x s.g)).length := by
    refine h.passed_le.lt_of_ne fun heq => ?_
    have hnil := h.ahead
    rw [heq, List.drop_length] at hnil
    cases hnil
  refine { ahead := ?_, passed_le := hlt, direction := ?_, free := fun j => ?_, reached := fun e he => ?_,
           place := fun j hj τ hτ => ?_ }
  · change (breakpoints (s.box.legs s.x s.g)).drop (w.passed + 1) = rest
    rw [← List.drop_drop, h.ahead]
    rfl
  · change (Vec.put w.d i 0).get = heading s.box s.x s.g (w.passed + 1)
    rw [heading_succ h.ahead, Vec.get_put, h.direction]
  · change (Vec.put w.free i false).get j = true ↔ _ ∧ j ∉ stopped s.box s.x s.g (w.passed + 1)
    rw [stopped_succ h.ahead, Vec.get_put, List.mem_append, List.mem_singleton, not_or]
    by_cases hj : j = i
    · subst hj
      simp
    · simp [hj, h.free]
  · change e ∈ (breakpoints (s.box.legs s.x s.g)).take (w.passed + 1) at he
    change e.1 ≤ t
    rw [htake, List.mem_append, List.mem_singleton] at he
    rcases he with he | rfl
    · exact (h.reached e he).trans ht
    · exact le_rfl
  · have hτ' : t ≤ τ := hτ
    rw [held_x hpending]
    by_cases hji : j = i
    · -- The coordinate is put onto its limit, where the path stays from its breakpoint on.
      subst hji
      have hmem : (t, j) ∈ breakpoints (s.box.legs s.x s.g) :=
        List.mem_of_mem_drop (h.ahead ▸ List.mem_cons_self)
      obtain ⟨hpos, hstop⟩ := mem_breakpoints.mp hmem
      have hlimit := (legs_course (g := s.g) hx j).clamp_of_ge hpos hstop hτ'
      rw [Function.update_self, Box.get_path]
      exact Limit.fin.inj (hpending.limit.symm.trans hlimit)
    · rw [held_d hpending] at hj
      rw [Function.update_of_ne hji]
      exact h.place j (by simpa [hji] using hj) τ (ht.trans hτ')

/-- Up to the next breakpoint the walk is on the path. -/
theorem position_eq (hx : s.box.Inside s.x) (hp : OnPath s rest w) (h : Follows s rest w) (hτ : w.t ≤ τ)
    (hle : ∀ e ∈ rest, τ ≤ e.1) : position s w τ = (s.box.path s.x s.g τ).get := by
  funext i
  rw [position]
  split_ifs with hd
  · exact h.place i hd τ hτ
  · have hi : i ∉ stopped s.box s.x s.g w.passed := fun hi => hd (by rw [h.direction]; exact if_pos hi)
    rw [h.direction, heading, if_neg hi, Box.get_path]
    refine ((legs_course hx i).clamp_of_le (hx i) (hp.time_nonneg.trans hτ) fun t ht hstop => ?_).symm
    have hmem : (t, i) ∈ breakpoints (s.box.legs s.x s.g) := mem_breakpoints.mpr ⟨ht, hstop⟩
    rw [← List.take_append_drop w.passed (breakpoints _), h.ahead, List.mem_append] at hmem
    exact hle _ (hmem.resolve_left fun hin => hi (List.mem_map.mpr ⟨_, hin, rfl⟩))

end Follows

/-- What holds at the start of the path and is kept where a coordinate is held, holds where the search for the first
minimum ends. -/
theorem point_invariant {J : List (ℝ × Fin n) → Walk ℝ n m.size → Prop} (hm : m.Sound) (hx : b.Inside x)
    (hne : ((b.legs x g).map Leg.speed).get ≠ 0) (h : point b m x g = .ok p)
    (hstart : J (breakpoints (b.legs x g)) (start (setting b m x g) (b.legs x g) (startCurvature b m x g)))
    (hstep : ∀ {t i rest w u}, OnPath (setting b m x g) ((t, i) :: rest) w →
      Follows (setting b m x g) ((t, i) :: rest) w → t - w.t ≤ -w.f1 / w.f2 → m.solveMiddle (m.rowW i) = .ok u →
      J ((t, i) :: rest) w → J rest (held (setting b m x g) t i w u)) :
    ∃ rest w, OnPath (setting b m x g) rest w ∧ Follows (setting b m x g) rest w ∧ J rest w ∧
      (∀ e ∈ rest, -w.f1 / w.f2 < e.1 - w.t) ∧ finish (setting b m x g) w = p := by
  obtain ⟨w, hw, hfinish⟩ := point_eq_ok hm hne h
  -- The property may rest on where the walk is, which the walk keeps by itself.
  obtain ⟨rest, ⟨hp, hf, hJ⟩, hstop⟩ := walk_invariant
    (J := fun rest w => OnPath (setting b m x g) rest w ∧ Follows (setting b m x g) rest w ∧ J rest w)
    (fun ⟨hp, hf, hJ⟩ hgo hu =>
      ⟨hp.held hm (setting_floor_pos hm hne) (hgo _ hp.ahead) hu, hf.held hx hp _, hstep hp hf (hgo _ hp.ahead) hu hJ⟩)
    ⟨setting_onPath hm hx hne, start_follows (s := setting b m x g) hx _, hstart⟩ hw
  exact ⟨rest, w, hp, hf, hJ, hp.stops hstop, hfinish⟩

/-- A path without a direction does not leave its start. -/
theorem path_of_speeds_eq_zero (hx : b.Inside x) (h : ((b.legs x g).map Leg.speed).get = 0) (ht : 0 ≤ t) :
    b.path x g t = x := by
  refine Vec.ext_get (funext fun i => ?_)
  have hi : ((b.legs x g).get i).speed = 0 := by
    rw [← Vec.get_map Leg.speed]
    exact congrFun h i
  rw [Box.get_path, (legs_course hx i).clamp_of_speed_eq_zero hi ht]

end Cauchy

end BoxBfgs
