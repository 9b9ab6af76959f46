import BoxBfgs.Proofs.Cauchy
import BoxBfgs.Proofs.Selection
import BoxBfgs.Proofs.Translation.Box

namespace BoxBfgs

namespace Cauchy

variable {n k : Nat}

/-- The walk along the path of a moved start in the moved box. -/
noncomputable abbrev Setting.shift (s : Setting ℝ n) (a : Vector ℝ n) : Setting ℝ n :=
  { s with box := s.box.shift a, x := s.x + a }

noncomputable def Walk.shift (w : Walk ℝ n k) (a : Vector ℝ n) : Walk ℝ n k := { w with x := w.x + a }

/-- A coordinate that moves towards a number. -/
def Limited (b : Box ℝ n) (d : Vector ℝ n) (i : Fin n) : Prop :=
  ∃ c, (if d.get i > 0 then b.upper.get i else b.lower.get i) = .fin c

variable {s : Setting ℝ n} (a : Vector ℝ n)

theorem held_shift {w : Walk ℝ n s.memory.size} {i : Fin n} (h : Limited s.box w.d i) (t : ℝ)
    (u : Vector ℝ (s.memory.size + s.memory.size)) :
    held (s.shift a) t i (w.shift a) u = (held s t i w u).shift a := by
  obtain ⟨c, hc⟩ := h
  have hvalue : (if w.d.get i > 0 then s.box.upper.get i else s.box.lower.get i).value = c := by
    rw [hc]
    rfl
  have hvalue' : (if (w.shift a).d.get i > 0 then (s.shift a).box.upper.get i else (s.shift a).box.lower.get i).value =
      c + a.get i := by
    rw [Box.get_upper_shift, Box.get_lower_shift, ← apply_ite (fun l => Limit.shift l (a.get i))]
    exact (congrArg (fun l => (Limit.shift l (a.get i)).value) hc).trans (by rw [Limit.shift_fin]; rfl)
  have hx : (s.x + a).get i = s.x.get i + a.get i := congrFun (Vec.get_add _ _) i
  have hput : Vec.put (w.x + a) i (c + a.get i) = Vec.put w.x i c + a := by
    refine Vec.ext_get (funext fun j => ?_)
    rw [Vec.get_put, Vec.get_add, Vec.get_add, Pi.add_apply, Vec.get_put]
    by_cases hj : j = i
    · subst hj
      rw [Function.update_self, Function.update_self]
    · rw [Function.update_of_ne hj, Function.update_of_ne hj, Pi.add_apply]
  simp only [held, hvalue, hvalue']
  simp only [Walk.shift, hx, hput, add_sub_add_right_eq_sub]

theorem pass_shift {w : Walk ℝ n s.memory.size} {i : Fin n} (h : Limited s.box w.d i) (t : ℝ) :
    pass (s.shift a) t i (w.shift a) = (pass s t i w).map fun w => w.shift a := by
  rw [pass_eq_map, pass_eq_map]
  have hheld := held_shift a h t
  cases s.memory.solveMiddle (s.memory.rowW i) with
  | error why => rfl
  | ok u => exact congrArg Except.ok (hheld u)

/-- The walk of a moved start holds the same coordinates at the same times. -/
theorem walk_shift {rest : List (ℝ × Fin n)} (hnodup : (rest.map Prod.snd).Nodup) {w : Walk ℝ n s.memory.size}
    (h : ∀ e ∈ rest, Limited s.box w.d e.2) :
    walk (s.shift a) rest (w.shift a) = (walk s rest w).map fun w => w.shift a := by
  induction rest generalizing w with
  | nil => rfl
  | cons e rest ih =>
      obtain ⟨t, i⟩ := e
      obtain ⟨hi, hnodup⟩ := List.nodup_cons.mp hnodup
      have hrest : (pass (s.shift a) t i (w.shift a)).bind (walk (s.shift a) rest) =
          ((pass s t i w).bind (walk s rest)).map fun w => w.shift a := by
        rw [pass_shift a (h _ List.mem_cons_self) t, pass_eq_map]
        cases s.memory.solveMiddle (s.memory.rowW i) with
        | error why => rfl
        | ok u =>
            refine ih hnodup fun e he => ?_
            have hne : e.2 ≠ i := fun heq => hi (List.mem_map.mpr ⟨e, he, heq⟩)
            have hd : (held s t i w u).d.get e.2 = w.d.get e.2 := by
              rw [held, Vec.get_put, Function.update_of_ne hne]
            rw [Limited, hd]
            exact h e (List.mem_cons_of_mem _ he)
      have hahead : (w.shift a).ahead = w.ahead := rfl
      have ht : (w.shift a).t = w.t := rfl
      simp only [walk, hahead, ht]
      cases w.ahead with
      | none => exact hrest
      | some b =>
          dsimp only
          split
          · rfl
          · exact hrest

theorem position_shift (w : Walk ℝ n s.memory.size) (t : ℝ) :
    position (s.shift a) (w.shift a) t = position s w t + a.get := by
  funext i
  simp only [position, Walk.shift, Vec.get_add, Pi.add_apply]
  split
  · rfl
  · ring

theorem finish_shift (hb : s.box.Proper) (w : Walk ℝ n s.memory.size) :
    finish (s.shift a) (w.shift a) = { finish s w with x := (finish s w).x + a } := by
  have hrise : rise (s.shift a) (w.shift a) = rise s w := rfl
  have hmoved (t : ℝ) : Vector.ofFn (position (s.shift a) (w.shift a) t) = .ofFn (position s w t) + a :=
    Vec.ext_get (by rw [Vec.get_add, Vec.get_ofFn_eq, Vec.get_ofFn_eq, position_shift])
  rw [finish_eq, finish_eq, hrise, hmoved, Box.project_shift _ _ hb]
  rfl

end Cauchy

namespace Leg

/-- A coordinate that reaches a limit moves towards a number. -/
theorem exists_limit {x g t : ℝ} {l u : Limit ℝ} (ht : 0 < t) (h : (of x g l u).stop = .fin t) :
    ∃ c, (if (of x g l u).speed > 0 then u else l) = .fin c := by
  by_cases hblocked : (l.atMost x && -g ≤ 0) || (u.atLeast x && -g ≥ 0)
  · rw [of_blocked hblocked] at h
    cases h
    exact absurd ht (lt_irrefl _)
  · rw [of, if_neg hblocked] at h ⊢
    by_cases hup : -g > 0
    · rw [if_pos hup] at h ⊢
      cases hu : u.finite? with
      | none => simp [hu] at h
      | some c => exact ⟨c, (if_pos hup).trans (Limit.finite?_eq_some.mp hu)⟩
    · rw [if_neg hup] at h ⊢
      by_cases hdown : -g < 0
      · rw [if_pos hdown] at h ⊢
        cases hl : l.finite? with
        | none => simp [hl] at h
        | some c => exact ⟨c, (if_neg hup).trans (Limit.finite?_eq_some.mp hl)⟩
      · rw [if_neg hdown] at h
        cases h

end Leg

namespace Cauchy

variable {n : Nat} {b : Box ℝ n}

theorem limited_of_mem_breakpoints {x g : Vector ℝ n} {e : ℝ × Fin n} (he : e ∈ breakpoints (b.legs x g)) :
    Limited b ((b.legs x g).map Leg.speed) e.2 := by
  obtain ⟨t, i⟩ := e
  obtain ⟨ht, hstop⟩ := mem_breakpoints.mp he
  rw [Limited, Vec.get_map]
  rw [Box.legs, Vec.get_ofFn] at hstop ⊢
  exact Leg.exists_limit ht hstop

theorem followed_shift {s : Setting ℝ n} (hb : s.box.Proper) {legs : Vector (Leg ℝ) n}
    (h : ∀ e ∈ breakpoints legs, Limited s.box (legs.map Leg.speed) e.2) (a : Vector ℝ n) (f2 : ℝ) :
    (walk (s.shift a) (breakpoints legs) (start (s.shift a) legs f2)).map (finish (s.shift a)) =
      ((walk s (breakpoints legs) (start s legs f2)).map (finish s)).map fun c => { c with x := c.x + a } := by
  have hstart : start (s.shift a) legs f2 = (start s legs f2).shift a := rfl
  rw [hstart, walk_shift a breakpoints_nodup h]
  cases walk s (breakpoints legs) (start s legs f2) with
  | error why => rfl
  | ok w => exact congrArg Except.ok (finish_shift a hb w)

/-- The first minimum along the path moves with its start and the box. -/
theorem point_shift (hb : b.Proper) (m : Memory ℝ n) (x g a : Vector ℝ n) :
    point (b.shift a) m (x + a) g = (point b m x g).map fun c => { c with x := c.x + a } := by
  rw [point, point, Box.legs_shift]
  dsimp only
  split
  · rfl
  · cases m.solveMiddle (m.transposeW ((b.legs x g).map Leg.speed)) with
    | error why => rfl
    | ok u =>
        exact followed_shift (s := { box := b, memory := m, x, g, floor := _ }) hb
          (fun e he => limited_of_mem_breakpoints he) a _

end Cauchy

namespace Subspace

variable {n f : Nat} {b : Box ℝ n} (a : Vector ℝ n)

theorem restrict_shift (places : Vector (Fin n) f) :
    restrict (b.shift a) places = (restrict b places).shift (Vec.gather a places) := by
  have hlower : (restrict (b.shift a) places).lower = ((restrict b places).shift (Vec.gather a places)).lower :=
    Vec.ext_get (by funext i; simp [restrict])
  have hupper : (restrict (b.shift a) places).upper = ((restrict b places).shift (Vec.gather a places)).upper :=
    Vec.ext_get (by funext i; simp [restrict])
  exact congrArg₂ Box.mk hlower hupper

theorem restrict_proper (hb : b.Proper) (places : Vector (Fin n) f) : (restrict b places).Proper := by
  intro i
  rw [restrict, Vec.get_gather, Vec.get_gather]
  exact hb _

theorem gather_add (x : Vector ℝ n) (places : Vector (Fin n) f) :
    Vec.gather (x + a) places = Vec.gather x places + Vec.gather a places :=
  Vec.ext_get (by funext i; simp)

theorem scatter_add (x : Vector ℝ n) {places : Vector (Fin n) f} (h : Function.Injective places.get)
    (values : Vector ℝ f) :
    Vec.scatter (x + a) places (values + Vec.gather a places) = Vec.scatter x places values + a := by
  refine Vec.ext_get (funext fun i => ?_)
  rw [Vec.get_add, Pi.add_apply]
  by_cases hi : ∃ j, places.get j = i
  · obtain ⟨j, rfl⟩ := hi
    rw [Vec.get_scatter h, Vec.get_scatter h, Vec.get_add, Pi.add_apply, Vec.get_gather]
  · rw [Vec.get_scatter_of_ne _ _ (not_exists.mp hi), Vec.get_scatter_of_ne _ _ (not_exists.mp hi), Vec.get_add,
      Pi.add_apply]

theorem advance_shift {k : Nat} (hb : b.Proper) (x : Vector ℝ n) (p : CauchyPoint ℝ n k) {places : Vector (Fin n) f}
    (h : Function.Injective places.get) (delta : Vector ℝ f) :
    advance (b.shift a) (x + a) { p with x := p.x + a } places delta =
      { advance b x p places delta with x := (advance b x p places delta).x + a } := by
  have hmoved (t : ℝ) : Vec.gather p.x places + Vec.gather a places + Vec.scale t delta =
      Vec.gather p.x places + Vec.scale t delta + Vec.gather a places :=
    Vec.ext_get (by simp only [Vec.get_add]; abel)
  have hback (y : Vector ℝ n) : y + a - (x + a) = y - x := Vec.ext_get (by simp only [Vec.get_add, Vec.get_sub]; abel)
  simp only [advance, restrict_shift, gather_add, Box.maxStep_shift, hmoved,
    Box.project_shift _ _ (restrict_proper hb places), scatter_add _ _ h, hback]

/-- The step in the free coordinates is the same from a moved start, and leads to the moved point. -/
theorem minimize_shift (hb : b.Proper) (m : Memory ℝ n) (x g : Vector ℝ n) (p : CauchyPoint ℝ n m.size) :
    minimize (b.shift a) m (x + a) g { p with x := p.x + a } =
      (minimize b m x g p).map fun s => { s with x := s.x + a } := by
  have hback : p.x + a - (x + a) = p.x - x := Vec.ext_get (by simp only [Vec.get_add, Vec.get_sub]; abel)
  have hgradient : modelGradient m (x + a) g { p with x := p.x + a } = modelGradient m x g p := by
    simp only [modelGradient, hback]
  rw [minimize, minimize]
  simp only [hgradient, hback]
  split
  · rfl
  · cases modelGradient m x g p with
    | error why => rfl
    | ok r =>
        simp only [Except.bind]
        cases newtonStep m (Vec.ofList (Vec.places p.free.get)) (Vec.gather r (Vec.ofList (Vec.places p.free.get))) with
        | error why => rfl
        | ok delta =>
            exact congrArg Except.ok (advance_shift a hb x p (Vec.ofList_injective (Vec.places_nodup _)) delta)

end Subspace

end BoxBfgs
