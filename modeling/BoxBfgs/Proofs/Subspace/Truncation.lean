import BoxBfgs.Proofs.Subspace.Newton
import Mathlib.Order.Bounds.Defs

namespace BoxBfgs.Subspace

open Matrix

/-- The step over the free coordinates before the box cuts it, which leaves the other coordinates where they are. -/
def wholeStep {α : Type} [Scalar α] {n : Nat} (m : Memory α n) (x g : Vector α n) (p : CauchyPoint α n m.size) :
    Except (Unsolved α) (Vector α n) :=
  let list := Vec.places p.free.get
  if list.isEmpty then .ok (.replicate n 0)
  else
    let places := Vec.ofList list
    (modelGradient m x g p).bind fun r =>
      (newtonStep m places (Vec.gather r places)).map (Vec.scatter (.replicate n 0) places)

variable {n k : Nat} {b : Box ℝ n} {m : Memory ℝ n} {x g : Vector ℝ n} {p : CauchyPoint ℝ n m.size}
  {s : SubspaceStep ℝ n} {places : Vector (Fin n) k}

theorem get_scatter_zero (hinj : Function.Injective places.get) (delta : Vector ℝ k) :
    (Vec.scatter (.replicate n 0) places delta).get = Vec.selection places *ᵥ delta.get := by
  funext i
  by_cases hi : ∃ a, places.get a = i
  · obtain ⟨a, rfl⟩ := hi
    rw [Vec.get_scatter hinj, Vec.selection_mulVec hinj]
  · rw [Vec.get_scatter_of_ne _ _ (not_exists.mp hi), Vec.selection_mulVec_of_ne _ (not_exists.mp hi),
      Vec.get_replicate]

/-- A move of the chosen coordinates stays in the box if these stay between their own limits. -/
theorem inside_scatter_iff (hinj : Function.Injective places.get) {v : Vector ℝ n} (hv : b.Inside v) {t : ℝ}
    {delta : Vector ℝ k} : b.Inside (v + Vec.scale t (Vec.scatter (.replicate n 0) places delta)) ↔
      (restrict b places).Inside (Vec.gather v places + Vec.scale t delta) := by
  have hat (a : Fin k) : (v + Vec.scale t (Vec.scatter (.replicate n 0) places delta)).get (places.get a) =
      (Vec.gather v places + Vec.scale t delta).get a := by
    rw [Vec.get_add, Vec.get_add, Pi.add_apply, Pi.add_apply, Vec.get_scale, Vec.get_scale, Vec.get_scatter hinj,
      Vec.get_gather]
  constructor
  · intro h a
    have ha := h (places.get a)
    rw [hat] at ha
    rwa [restrict, Vec.get_gather, Vec.get_gather]
  · intro h i
    by_cases hi : ∃ a, places.get a = i
    · obtain ⟨a, rfl⟩ := hi
      have ha := h a
      rw [restrict, Vec.get_gather, Vec.get_gather] at ha
      rwa [hat]
    · rw [Vec.get_add, Pi.add_apply, Vec.get_scale, Vec.get_scatter_of_ne _ _ (not_exists.mp hi), Vec.get_replicate,
        mul_zero, add_zero]
      exact hv i

theorem advance_isGreatest (hinj : Function.Injective places.get) (hp : b.Inside p.x) (delta : Vector ℝ k) :
    IsGreatest {t | 0 ≤ t ∧ t ≤ 1 ∧ b.Inside (p.x + Vec.scale t (Vec.scatter (.replicate n 0) places delta))}
      (advance b x p places delta).alpha := by
  constructor
  · refine ⟨advance_alpha_nonneg delta, advance_alpha_le delta, (inside_scatter_iff hinj hp).mpr ?_⟩
    apply Box.inside_of_le_maxStep (restrict_inside hp) (advance_alpha_nonneg delta)
    · rw [advance_alpha]
      exact min_le_right _ _
  · rintro t ⟨-, hle, hin⟩
    rw [advance_alpha]
    exact le_min hle (Box.le_maxStep_of_inside ((inside_scatter_iff hinj hp).mp hin) hle)

theorem get_free {a : Fin (Vec.places p.free.get).length} : p.free.get ((Vec.ofList (Vec.places p.free.get)).get a) = true := by
  have hmem : (Vec.places p.free.get).get a ∈ Vec.places p.free.get := List.get_mem _ a
  exact (List.mem_filter.mp hmem).2

theorem minimize_alpha (h : minimize b m x g p = .ok s) : 0 ≤ s.alpha ∧ s.alpha ≤ 1 := by
  obtain ⟨-, rfl⟩ | ⟨r, delta, -, -, -, rfl⟩ := minimize_cases h
  · exact ⟨zero_le_one, le_rfl⟩
  · exact ⟨advance_alpha_nonneg delta, advance_alpha_le delta⟩

theorem minimize_held (h : minimize b m x g p = .ok s) {i : Fin n} (hi : p.free.get i = false) :
    s.x.get i = p.x.get i := by
  obtain ⟨-, rfl⟩ | ⟨r, delta, -, -, -, rfl⟩ := minimize_cases h
  · rfl
  · apply Vec.get_scatter_of_ne
    rintro a rfl
    rw [get_free] at hi
    cases hi

theorem minimize_isGreatest (hin : b.Inside p.x) (h : minimize b m x g p = .ok s) :
    ∃ delta, wholeStep m x g p = .ok delta ∧ s.x = p.x + Vec.scale s.alpha delta ∧
      IsGreatest {t | 0 ≤ t ∧ t ≤ 1 ∧ b.Inside (p.x + Vec.scale t delta)} s.alpha := by
  obtain ⟨hnone, rfl⟩ | ⟨r, delta, hsome, hr, hdelta, rfl⟩ := minimize_cases h
  · have hstill (t : ℝ) : p.x + Vec.scale t (.replicate n 0) = p.x := by
      apply Vec.ext_get
      funext i
      rw [Vec.get_add, Pi.add_apply, Vec.get_scale, Vec.get_replicate, mul_zero, add_zero]
    refine ⟨.replicate n 0, ?_, (hstill 1).symm, ?_, ?_⟩
    · rw [wholeStep, hnone]
      rfl
    · exact ⟨zero_le_one, le_rfl, by rwa [hstill]⟩
    · exact fun t ht => ht.2.1
  · have hinj := free_injective p
    refine ⟨Vec.scatter (.replicate n 0) (Vec.ofList (Vec.places p.free.get)) delta, ?_, ?_,
      advance_isGreatest hinj hin delta⟩
    · simp only [wholeStep]
      rw [if_neg (fun he => hsome (List.isEmpty_iff.mp he)), hr]
      exact congrArg (Except.map _) hdelta
    · apply Vec.ext_get
      rw [(advance_spec hinj hin delta).2, Vec.get_add, Vec.get_scale_eq, get_scatter_zero hinj]

theorem exists_minimize {f : Factor ℝ (m.size + m.size)} (hf : m.factor = .ok f)
    (he : ∃ e, Factor.ofMatrix (system m (Vec.ofList (Vec.places p.free.get))) = .ok e) :
    ∃ s, minimize b m x g p = .ok s := by
  obtain ⟨r, hr⟩ := exists_modelGradient hf x g p
  obtain ⟨delta, hdelta⟩ := exists_newtonStep (.inr he) (Vec.gather r (Vec.ofList (Vec.places p.free.get)))
  simp only [minimize]
  split_ifs
  · exact ⟨_, rfl⟩
  · rw [hr]
    exact ⟨_, congrArg (Except.map _) hdelta⟩

theorem selection_pair (v : Fin 2 → ℝ) : Vec.selection (#v[1, 2] : Vector (Fin 3) 2) *ᵥ v = ![0, v 0, v 1] := by
  funext i
  rw [mulVec, dotProduct, Fin.sum_univ_two]
  fin_cases i <;> simp [Vec.selection, Vec.get_eq_getElem]

theorem slant_newtonStep {r : Vector ℝ 3} (hr : r.get 1 = -1 / 5 ∧ r.get 2 = 1 / 5) {delta : Vector ℝ 2}
    (h : newtonStep slantMemory (#v[1, 2] : Vector (Fin 3) 2) (Vec.gather r #v[1, 2]) = .ok delta) :
    delta.get = ![1 / 15, -1 / 10] := by
  symm
  apply (newtonStep_eq_iff slant_reachable.sound pair_injective h _).mp
  rw [reducedHessian_mulVec, selection_pair, slant_hessian_mulVec, Vec.selection_transpose_mulVec]
  funext c
  rw [Pi.neg_apply, Vec.get_gather]
  fin_cases c
  · change (0 : ℝ) + 3 * (1 / 15) = -r.get 1
    rw [hr.1]
    norm_num
  · change (2 : ℝ) * (-1 / 10) = -r.get 2
    rw [hr.2]
    norm_num

theorem slant_advance {a : ℝ} {p : CauchyPoint ℝ 3 slantMemory.size} (hx : p.x.get = ![0, -2 / 5, -2 / 5])
    {delta : Vector ℝ 2} (hdelta : delta.get = ![1 / 15, -1 / 10]) :
    (advance halfSpace.toBox #v[a, 0, 0] p (#v[1, 2] : Vector (Fin 3) 2) delta).x.get = ![0, -1 / 3, -1 / 2] := by
  have hin : halfSpace.Inside p.x := halfSpace_inside (by rw [hx]; rfl)
  have hwhole : (advance halfSpace.toBox #v[a, 0, 0] p (#v[1, 2] : Vector (Fin 3) 2) delta).alpha = 1 := by
    apply le_antisymm (advance_alpha_le delta)
    refine (advance_isGreatest pair_injective hin delta).2 ⟨zero_le_one, le_rfl, halfSpace_inside ?_⟩
    rw [Vec.get_add, Vec.get_scale_eq, get_scatter_zero pair_injective, selection_pair, hx]
    simp
  rw [(advance_spec pair_injective hin delta).2, hwhole, hx, selection_pair, hdelta]
  funext i
  fin_cases i <;> norm_num

theorem slant_minimize {a : ℝ} (ha : a ≤ 0) : ∃ p s,
    Cauchy.point halfSpace.toBox slantMemory #v[a, 0, 0] #v[0, 1, 1] = .ok p ∧
    minimize halfSpace.toBox slantMemory #v[a, 0, 0] #v[0, 1, 1] p = .ok s ∧
    p.x.get = ![0, -2 / 5, -2 / 5] ∧ s.x.get = ![0, -1 / 3, -1 / 2] := by
  obtain ⟨f, hf⟩ := slant_factor
  obtain ⟨p, hp, hx, hfree, hc⟩ := slant_point ha
  have hplaces : Vec.places p.free.get = [1, 2] := by
    rw [hfree]
    decide
  obtain ⟨s, hs⟩ := exists_minimize (b := halfSpace.toBox) (x := #v[a, 0, 0]) (g := #v[0, 1, 1]) (p := p) hf
    (by rw [hplaces]; exact slant_factor_system)
  refine ⟨p, s, hp, hs, hx, ?_⟩
  obtain ⟨hnone, -⟩ | ⟨r, delta, -, hr, hdelta, rfl⟩ := minimize_cases hs
  · rw [hplaces] at hnone
    cases hnone
  · have hgradient := slant_modelGradient hx hc hr
    clear hs
    revert delta
    rw [hplaces]
    intro delta hdelta
    exact slant_advance hx (slant_newtonStep ⟨congrFun hgradient 1, congrFun hgradient 2⟩ hdelta)

/-- The step from the point of the path keeps what is held, is cut where the box ends and not before, and does not rise
in the model. -/
theorem minimize_truncated (hm : m.Reachable) (hp : Cauchy.point b m x g = .ok p) (hs : minimize b m x g p = .ok s) :
    (∀ i, p.free.get i = false → s.x.get i = p.x.get i) ∧ 0 ≤ s.alpha ∧ s.alpha ≤ 1 ∧
      (b.Inside p.x → b.Inside s.x ∧ ∃ delta, wholeStep m x g p = .ok delta ∧ s.x = p.x + Vec.scale s.alpha delta ∧
        IsGreatest {t | 0 ≤ t ∧ t ≤ 1 ∧ b.Inside (p.x + Vec.scale t delta)} s.alpha) ∧
      (b.Inside x → b.Inside p.x ∧ m.model g.get (s.x.get - x.get) ≤ m.model g.get (p.x.get - x.get)) := by
  obtain ⟨h0, h1⟩ := minimize_alpha hs
  refine ⟨fun i hi => minimize_held hs hi, h0, h1, fun hin => ?_, fun hx => ?_⟩
  · exact ⟨(inside_of_minimize hin hs).1, minimize_isGreatest hin hs⟩
  · obtain ⟨-, hin, hc, -⟩ := Cauchy.point_consistent hm hx hp
    exact ⟨hin, model_minimize_le hm.sound hin hc hs⟩

theorem minimize_truncated_slant : ∃ p s, slantMemory.Reachable ∧ halfSpace.Inside #v[0, 0, 0] ∧
    Cauchy.point halfSpace.toBox slantMemory #v[0, 0, 0] #v[0, 1, 1] = .ok p ∧
    minimize halfSpace.toBox slantMemory #v[0, 0, 0] #v[0, 1, 1] p = .ok s ∧ halfSpace.Inside s.x ∧ s.alpha ≤ 1 ∧
    slantMemory.model (#v[0, 1, 1] : Vector ℝ 3).get (s.x.get - (#v[0, 0, 0] : Vector ℝ 3).get) ≤
      slantMemory.model (#v[0, 1, 1] : Vector ℝ 3).get (p.x.get - (#v[0, 0, 0] : Vector ℝ 3).get) := by
  obtain ⟨p, s, hp, hs, -, -⟩ := slant_minimize le_rfl
  have hx : halfSpace.Inside #v[0, 0, 0] := halfSpace_inside le_rfl
  obtain ⟨-, -, hle, hcut, hmodel⟩ := minimize_truncated slant_reachable hp hs
  obtain ⟨hin, hdown⟩ := hmodel hx
  exact ⟨p, s, slant_reachable, hx, hp, hs, (hcut hin).1, hle, hdown⟩

noncomputable def pinned : Bounds ℝ 1 :=
  { lower := .replicate 1 (.fin 0), upper := .replicate 1 (.fin 0), kinds := .replicate 1 .both }

theorem pinned_built : pinned.Built := by
  apply Bounds.Normal.built
  constructor
  · intro i
    fin_cases i
    simp [pinned, Vec.get_eq_getElem, Kind.hasLower]
  · intro i
    fin_cases i
    simp [pinned, Vec.get_eq_getElem, Kind.hasUpper]
  · intro i
    fin_cases i
    simp [pinned, Vec.get_eq_getElem]
  · intro i
    fin_cases i
    simp [pinned, Limit.less, Vec.get_eq_getElem]

theorem pinned_minimize : ∃ p s, Cauchy.point pinned.toBox (Memory.empty 1 1) #v[-1] #v[1] = .ok p ∧
    minimize pinned.toBox (Memory.empty 1 1) #v[-1] #v[1] p = .ok s ∧ s.x.get 0 = -1 := by
  have hlegs : pinned.legs #v[-1] #v[1] = #v[⟨.fin 0, 0⟩] := by
    apply Vec.ext_get
    funext i
    rw [Box.legs, Vec.get_ofFn]
    fin_cases i
    simp [pinned, Leg.of, Vec.get_eq_getElem]
  have hstill : ((pinned.legs #v[-1] #v[1]).map Leg.speed).get = 0 := by
    rw [hlegs]
    funext i
    fin_cases i
    simp [Vec.get_eq_getElem]
  have hp := Cauchy.point_of_speeds_eq_zero (m := Memory.empty 1 1) hstill
  obtain ⟨s, hs⟩ := minimize_of_isEmpty (m := Memory.empty 1 1) rfl pinned.toBox #v[-1] #v[1] _
  refine ⟨_, s, hp, hs, ?_⟩
  refine minimize_held hs (i := 0) ?_
  rw [Vec.get_map, hlegs]
  simp [Vec.get_eq_getElem, Leg.starts, Limit.undercuts]

/-- From outside the box a path that does not move is not led back, and a path that moves hands on a gradient along
which the model can rise. -/
theorem minimize_outside :
    (∃ p s, pinned.Built ∧ (Memory.empty 1 1 : Memory ℝ 1).Reachable ∧
      Cauchy.point pinned.toBox (Memory.empty 1 1) #v[-1] #v[1] = .ok p ∧
      minimize pinned.toBox (Memory.empty 1 1) #v[-1] #v[1] p = .ok s ∧ ¬pinned.Inside s.x) ∧
    ∃ p s, halfSpace.Built ∧ slantMemory.Reachable ∧
      Cauchy.point halfSpace.toBox slantMemory #v[-1, 0, 0] #v[0, 1, 1] = .ok p ∧
      minimize halfSpace.toBox slantMemory #v[-1, 0, 0] #v[0, 1, 1] p = .ok s ∧ halfSpace.Inside p.x ∧
      slantMemory.model (#v[0, 1, 1] : Vector ℝ 3).get (p.x.get - (#v[-1, 0, 0] : Vector ℝ 3).get) <
        slantMemory.model (#v[0, 1, 1] : Vector ℝ 3).get (s.x.get - (#v[-1, 0, 0] : Vector ℝ 3).get) := by
  constructor
  · obtain ⟨p, s, hp, hs, hheld⟩ := pinned_minimize
    refine ⟨p, s, pinned_built, .empty (by decide), hp, hs, ?_⟩
    intro hin
    have h0 := (hin 0).1
    rw [hheld] at h0
    norm_num [pinned, Vec.get_eq_getElem] at h0
  · obtain ⟨p, s, hp, hs, hx, hsx⟩ := slant_minimize (a := -1) (by norm_num)
    refine ⟨p, s, halfSpace_built, slant_reachable, hp, hs, halfSpace_inside (by rw [hx]; rfl), ?_⟩
    rw [Memory.model, Memory.model, slant_hessian_mulVec, slant_hessian_mulVec, hx, hsx, get_triple, get_triple]
    simp [dotProduct, Fin.sum_univ_three]
    norm_num

end BoxBfgs.Subspace
