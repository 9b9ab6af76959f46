import BoxBfgs.Proofs.Run.Exact
import BoxBfgs.Proofs.Run.Storage
import BoxBfgs.Proofs.Tensor

namespace BoxBfgs

open Matrix

namespace Tensor

variable {β : Type}

theorem parts_one (l : List β) : parts 1 l.length l = l.map fun b => [b] := by
  have h : parts 1 l.length (l.flatMap fun b => [b]) = l.map fun b => [b] :=
    parts_flatMap (f := fun b => [b]) (fun _ => rfl) l
  rwa [List.flatMap_singleton'] at h

theorem room_single (n : Nat) : room [n] = n := by simp [room]

theorem stretch_ofVector {n : Nat} (v : Vector β n) : (ofVector v).stretch [n] = ofVector v := by
  have hparts : parts 1 n v.toList = v.toList.map fun b => [b] := by
    have h := parts_one v.toList
    rwa [Vector.length_toList] at h
  simp [stretch, ofVector, deepen, repeated, room, hparts, List.flatMap_map]

theorem commonShapes?_single (n : Nat) : commonShapes? [[n], [n], [n], [n]] = some [n] := by
  have hfirst : commonShape? [] [n] = some [n] := by
    have hlength : commonLength? 1 n = some n := by
      rw [commonLength?, if_pos rfl]
      split_ifs with h
      · rw [h]
      · rfl
    simp [commonShape?, deepen, hlength]
  simp [commonShapes?, hfirst, commonShape?_self]

end Tensor

namespace Limit

variable {l u : Limit ℝ} {a : ℝ}

@[simp] theorem shift_zero (l : Limit ℝ) : l.shift 0 = l := by
  cases l <;> simp [shift, ofScalar]

theorem undercuts_of_atLeast (h : l.atLeast a = true) : l.undercuts a = false := by
  cases l with
  | negInf => rfl
  | fin b => simpa [undercuts] using h
  | posInf => simp at h

theorem exceeds_of_atMost (h : u.atMost a = true) : u.exceeds a = false := by
  cases u with
  | negInf => simp at h
  | fin b => simpa [exceeds] using h
  | posInf => rfl

end Limit

theorem Box.outside?_of_inside {n : Nat} {b : Box ℝ n} {x : Vector ℝ n} (hx : b.Inside x) : b.outside? x 0 = none := by
  have hbelow : ((List.finRange n).find? fun i => (b.lower.get i).undercuts (x.get i)) = none :=
    List.find?_eq_none.mpr fun i _ => by simp [Limit.undercuts_of_atLeast (hx i).1]
  have habove : ((List.finRange n).find? fun i => (b.upper.get i).exceeds (x.get i)) = none :=
    List.find?_eq_none.mpr fun i _ => by simp [Limit.exceeds_of_atMost (hx i).2]
  simp only [outside?, neg_zero, Limit.shift_zero, hbelow, habove]
  rfl

/-- A point of the box passes for one. -/
theorem Bounds.checkFeasible_ok {n : Nat} {b : Bounds ℝ n} {x : Vector ℝ n} (hx : b.Inside x) :
    b.checkFeasible (.ofVector x) (.single 0) = .ok () := by
  have halign : ∃ a, Checked.align (.ofVector x) (.ofVector x) b.lowers b.uppers = .ok a ∧ a.box.outside? a.x 0 = none := by
    simp only [Checked.align, lowers, uppers, Tensor.shape_ofVector, Tensor.commonShapes?_single,
      Tensor.stretch_ofVector, Fault.fitting, Fault.orElse, Except.bind]
    have hroom := Tensor.room_single n
    generalize Tensor.room [n] = k at hroom
    subst hroom
    simp only [Tensor.vector?_ofVector]
    exact ⟨_, rfl, Box.outside?_of_inside hx⟩
  obtain ⟨a, ha, hnone⟩ := halign
  have hwidened : b.widened (.ofVector x) (.single 0) = .ok (a, 0) := congrArg (Except.map fun a => (a, 0)) ha
  simp only [checkFeasible, hwidened, Except.bind, hnone]

namespace Memory

variable {n : Nat} {m m' : Memory ℝ n}

/-- A memory that holds no more pairs than it is meant to. -/
structure Roomy (m : Memory ℝ n) : Prop where
  depth : 1 ≤ m.depth
  size : (m.size : Int) ≤ m.depth

theorem clear_roomy (h : 1 ≤ m.depth) : m.clear.Roomy where
  depth := h
  size := by
    have hsize : m.clear.size = 0 := rfl
    rw [hsize]
    exact zero_le_one.trans h

theorem keepFactor_roomy (h : m.Roomy) : m.keepFactor.Roomy := by
  rw [keepFactor]
  split
  · exact h
  · split
    · exact ⟨h.depth, h.size⟩
    · exact h

theorem append_roomy (h : 1 ≤ m.depth) (hsize : (m.size : Int) < m.depth) (p : Pair ℝ n) : (m.append p).Roomy where
  depth := h
  size := by
    have hone : (m.append p).size = m.size + 1 := List.length_append
    have hdepth : (m.append p).depth = m.depth := rfl
    rw [hone, hdepth]
    omega

theorem push_roomy (h : m.Roomy) {p : Pair ℝ n} (hp : m.push p = .stored m') : m'.Roomy := by
  obtain ⟨-, -, rfl⟩ := push_stored hp
  have hdepth := h.depth
  split_ifs with hfull
  · have hdrop : m.dropOldest.size = m.size - 1 := List.length_drop
    have hsame : m.dropOldest.depth = m.depth := rfl
    exact append_roomy (m := m.dropOldest) (hdepth.trans_eq hsame.symm) (by omega) p
  · exact append_roomy hdepth (lt_of_le_of_ne h.size hfull) p

theorem Turned.roomy {q : Option (Pair ℝ n)} (h : m.Turned q m') (hm : m.Roomy) : m'.Roomy := by
  cases h with
  | kept => exact hm
  | factored => exact keepFactor_roomy hm
  | cleared => exact clear_roomy hm.depth
  | pushed hp => exact push_roomy hm hp

theorem renew_roomy (old : Option ((n : Nat) × Memory ℝ n)) (n : Nat) {depth : Nat} (h : 1 ≤ depth) :
    (renew old n depth).Roomy := by
  have hdepth : (1 : Int) ≤ depth := by exact_mod_cast h
  have hempty : (empty n depth : Memory ℝ n).Roomy := ⟨hdepth, Int.natCast_nonneg depth⟩
  cases old with
  | none => exact hempty
  | some k =>
      obtain ⟨k, m⟩ := k
      rw [renew]
      split_ifs with hk hsame
      · subst hk
        exact clear_roomy (hdepth.trans_eq hsame.symm)
      · exact hempty
      · exact hempty

end Memory

namespace Run

variable {κ : Type} {n : Nat} {s : Setup ℝ κ n} {it : Iterate ℝ n} {p p' : Progress ℝ n} {w : World ℝ κ}

theorem after_roomy {m : Memory ℝ n} (hm : m.Roomy) (w : World ℝ κ) (k : Nat) :
    (after s m w k).phase.memory.Roomy := after_memory hm (fun h hm => h.roomy hm) w k

/-- An iterate as a run comes to it. -/
structure Regular (s : Setup ℝ κ n) (it : Iterate ℝ n) : Prop where
  sound : it.memory.Sound
  roomy : it.memory.Roomy
  inside : s.bounds.Inside it.point.x

theorem after_regular (hs : s.Checked) {m : Memory ℝ n} (hm : m.Roomy) {w : World ℝ κ} {k : Nat}
    (hcheck : (after s m w k).phase = .check it) : Regular s it := by
  have hdescends := (after_reachable s m w k).descends hs
  have hroom : (after s m w k).phase.memory.Roomy := after_roomy hm w k
  rw [hcheck] at hdescends hroom
  cases hdescends with
  | check hsound hx => exact ⟨hsound, hroom, hx⟩

/-- In exact arithmetic there is nothing to find fault with at an iterate. -/
theorem Regular.inspected (h : Regular s it) : inspect s it = .ok () := by
  have hfinite (name : String) (entries : List ℝ) : Debug.checkFinite name entries = .ok () := by
    simp [Debug.checkFinite]
  have hmodel : Debug.checkModel it.memory = .ok () := by
    have htheta : (!decide (0 < it.memory.theta)) = false := by simpa using h.sound.theta_pos
    have hcurved : ((List.finRange it.memory.size).find? fun i =>
        !decide (0 < Vec.dot (it.memory.pairs.get i).s (it.memory.pairs.get i).y)) = none := by
      refine List.find?_eq_none.mpr fun i _ => ?_
      have hpos : 0 < (it.memory.pairs.get i).s.get ⬝ᵥ (it.memory.pairs.get i).y.get := h.sound.curvature_pos i
      simpa using hpos
    rw [Debug.checkModel, htheta, if_neg Bool.false_ne_true, hcurved]
  have hadmissible : Debug.checkAdmissible it.memory = .ok () := by
    rw [Debug.checkAdmissible, if_neg h.roomy.size.not_gt, hmodel]
  rw [inspect, Bounds.checkFeasible_ok h.inside, hadmissible, hfinite, hfinite]
  rfl

/-- Nothing but the callback can object to an iterate that passes the inspection. -/
theorem reported_eq_ok (h : inspect s it = .ok ()) : (∃ p' w', reported s it p w = (.ok (), p', w')) ∨
    ∃ f r w1 why p' w', s.callback = some f ∧ (f r w1).1 = .error why ∧ reported s it p w = (.error why, p', w') := by
  rw [reported]
  split
  · exact .inl ⟨_, _, rfl⟩
  · simp only [record, h, ite_self]
    split
    · exact .inl ⟨_, _, rfl⟩
    · rename_i f hf
      generalize hcall : f _ _ = a
      obtain ⟨r, w'⟩ := a
      cases r with
      | ok _ => exact .inl ⟨_, _, rfl⟩
      | error why => exact .inr ⟨f, _, _, why, _, _, hf, congrArg Prod.fst hcall, rfl⟩

theorem Still.reason? {norm : ℝ} (h : Still p p') : reason? s it norm p' = reason? s it norm p := by
  simp only [Run.reason?, h.iterations, h.evaluator]

/-- A run stops at an iterate where there is a reason to, unless the callback throws. -/
theorem checking_stops (h : inspect s it = .ok ()) {r : Reason ℝ}
    (hreason : reason? s it (s.bounds.projectedGradientNorm it.point.x it.point.g) p = some r) :
    (∃ p' w', Still p p' ∧ checking s it p w = ⟨.ended it.memory (some it.point) r, p', w'⟩) ∨
      ∃ f r w1 why p' w', s.callback = some f ∧ (f r w1).1 = .error why ∧
        checking s it p w = ⟨.escaped it.memory why, p', w'⟩ := by
  rcases reported_eq_ok (p := p) (w := w) h with ⟨p', w', hok⟩ | ⟨f, r, w1, why, p', w', hf, hwhy, herror⟩
  · have hstill : Still p p' := (reported_shown hok).1
    refine .inl ⟨p', w', hstill, ?_⟩
    rw [← hstill.reason?] at hreason
    simp only [checking_eq, hok, judged, hreason]
  · refine .inr ⟨f, r, w1, why, p', w', hf, hwhy, ?_⟩
    simp only [checking_eq, herror, judged]

theorem inspect_after (hs : s.Checked) {m : Memory ℝ n} (hm : m.Roomy) {k : Nat}
    (hcheck : (after s m w k).phase = .check it) : inspect s it = .ok () := (after_regular hs hm hcheck).inspected

end Run

namespace Solver

variable {s : Setup ℝ Unit 1} {a : ℝ}

/-- If there is a reason to stop at the next iterate, then the run has ended after seven steps. -/
theorem Squaring.after_seven (h : Squaring s a) (hs : s.Checked) (hcallback : s.callback = none) {r : Reason ℝ}
    (hreason : ∀ (m : Memory ℝ 1) (p : Progress ℝ 1), p.iterations = 1 →
      Run.reason? s { point := squareAt (a - 1), previous := some (squareAt a).f, memory := m }
        (s.bounds.projectedGradientNorm (squareAt (a - 1)).x (squareAt (a - 1)).g) p = some r) (w : World ℝ Unit) :
    ∃ m p w', Run.after s (.empty 1 5) w 7 = ⟨.ended m (some (squareAt (a - 1))) r, p, w'⟩ ∧ p.iterations = 1 ∧
      p.evaluator = { budget := .whole 1000, count := 2, best := some (squareAt (a - 1)) } := by
  obtain ⟨m, p, w', hsix, hone, hevaluator⟩ := h.after_six w
  have hroomy : (Memory.empty 1 5 : Memory ℝ 1).Roomy := Memory.renew_roomy none 1 (by decide)
  have hinspect := Run.inspect_after hs hroomy (congrArg State.phase hsix)
  have hstep : Run.after s (.empty 1 5) w 7 =
      Run.checking s { point := squareAt (a - 1), previous := some (squareAt a).f, memory := m } p w' := by
    rw [Run.after_succ, hsix]
    rfl
  rcases Run.checking_stops (w := w') hinspect (hreason m p hone) with
    ⟨p', w1, hstill, hstop⟩ | ⟨f, -, -, -, -, -, hf, -⟩
  · exact ⟨m, p', w1, hstep.trans hstop, hstill.iterations.trans hone, hstill.evaluator.trans hevaluator⟩
  · cases hf.symm.trans hcallback

end Solver

end BoxBfgs
