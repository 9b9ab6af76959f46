import BoxBfgs.Proofs.Memory.Ledger
import BoxBfgs.Proofs.Run.Reporting
import BoxBfgs.Proofs.Run.Reuse

namespace BoxBfgs

open Matrix

theorem Evaluator.attempt_slope {X α σ : Type} [Scalar α] {n : Nat} {e e' : Evaluator X α n} {o : Objective α σ}
    {view : X → Tensor α} {x : X} {w w' : σ} {d : Vector α n} {p : Evaluated X α n} {v g : α}
    (h : e.attempt o view d x w = (.answered p v g, e', w')) : g = Vec.dot p.g d := by
  rw [attempt] at h
  split at h
  · cases h
    rfl
  · cases h
  · cases h
  · cases h

namespace Memory

variable {n : Nat} {m m' : Memory ℝ n}

/-- A memory with room for all the pairs that it is meant to hold. -/
structure Ample (m : Memory ℝ n) : Prop extends m.Roomy where
  capacity : (m.capacity : Int) = m.depth

theorem empty_ample {depth : Nat} (h : 1 ≤ depth) : (empty n depth : Memory ℝ n).Ample where
  toRoomy := renew_roomy none n h
  capacity := rfl

theorem Turned.ample {q : Option (Pair ℝ n)} (h : m.Turned q m') (hm : m.Ample) : m'.Ample where
  toRoomy := h.roomy hm.toRoomy
  capacity := by
    obtain ⟨hdepth, hcapacity⟩ := h.sizes
    rw [hcapacity, hdepth, hm.capacity]

/-- A memory with enough room refuses a pair for nothing but its curvature. Any other one becomes its latest. -/
theorem Ample.push_cases (h : m.Ample) (q : Pair ℝ n) :
    (∃ m', Scalar.epsilon * Vec.dot q.y q.y < Vec.dot q.s q.y ∧ m.push q = .stored m' ∧
      m'.pairs.getLast? = some q) ∨
    Vec.dot q.s q.y ≤ Scalar.epsilon * Vec.dot q.y q.y ∧ m.push q = .refused := by
  have hiff : admissible q = true ↔ Scalar.epsilon * Vec.dot q.y q.y < Vec.dot q.s q.y := by
    simp [admissible]
  rcases lt_or_ge (Scalar.epsilon * Vec.dot q.y q.y) (Vec.dot q.s q.y) with hcurved | hflat
  · have hroom : (if m.size = m.depth then m.dropOldest else m).size < m.capacity := by
      have hdepth := h.depth
      have hsize := h.size
      have hcapacity := h.capacity
      split_ifs with hfull
      · have hdrop : m.dropOldest.size = m.size - 1 := List.length_drop
        omega
      · omega
    exact .inl ⟨_, hcurved, push_of_room (hiff.mpr hcurved) hroom, List.getLast?_concat⟩
  · refine .inr ⟨hflat, ?_⟩
    have hrefused : admissible q = false := Bool.eq_false_iff.mpr fun hq => hflat.not_gt (hiff.mp hq)
    simp [push, hrefused]

end Memory

/-- The pair that going on to a new point offers to the memory. -/
def Iterate.pair {α : Type} [Scalar α] {n : Nat} (it : Iterate α n) (new : Point α n) : Pair α n :=
  ⟨new.x - it.point.x, new.g - it.point.g⟩

namespace Run

variable {κ : Type} {n : Nat} {s : Setup ℝ κ n} {it : Iterate ℝ n} {d : Vector ℝ n} {p : Progress ℝ n} {w : World ℝ κ}
  {found : Found ℝ (Point ℝ n)} {e : Evaluator (Vector ℝ n) ℝ n} {w' : World ℝ κ}

theorem after_ample {m : Memory ℝ n} (hm : m.Ample) (w : World ℝ κ) (k : Nat) :
    (after s m w k).phase.memory.Ample := after_memory hm (fun h hm => h.ample hm) w k

/-- A search that converges ends at a point where the line is flat enough, and with nothing else to report. -/
theorem sought_converged (hs : s.Checked) (hd : Falling s it d) (h : sought s it d p w = (.ok found, e, w'))
    (ho : found.outcome = .converged) : ∃ new, found.point = some new ∧ found.fault = none ∧
      |Vec.dot new.g d| ≤ s.options.c2 * -Vec.dot it.point.g d := by
  obtain ⟨hc1, hc, hc2⟩ := hs.options.wolfe
  obtain ⟨new, v, g, w1, hlast, hnew, hfault, hflat⟩ := Line.search_converged hc1 hc hc2 hs.options.width.2 hd.slope
    (initialStep_pos hd.room _ _) hd.room h ho
  rw [Evaluator.attempt_slope hlast] at hflat
  exact ⟨new, hnew, hfault, hflat⟩

/-- A pair that points along a direction, with a curvature of at least a share of the slope at the start. -/
structure Curved (c2 : ℝ) (it : Iterate ℝ n) (d : Vector ℝ n) (t : ℝ) (q : Pair ℝ n) : Prop where
  along : q.s = Vec.scale t d
  pos : 0 < t * (1 - c2) * |Vec.dot it.point.g d|
  le : t * (1 - c2) * |Vec.dot it.point.g d| ≤ Vec.dot q.s q.y

/-- The slope rises from its start to at least a share of it, and the curvature along the step is what it rises by. -/
theorem curved_of_flat {c2 t : ℝ} (hc2 : c2 < 1) (ht : 0 < t) (hslope : Vec.dot it.point.g d < 0) {new : Point ℝ n}
    (hx : new.x - it.point.x = Vec.scale t d) (hflat : |Vec.dot new.g d| ≤ c2 * -Vec.dot it.point.g d) :
    Curved c2 it d t (it.pair new) where
  along := hx
  pos := mul_pos (mul_pos ht (sub_pos.mpr hc2)) (abs_pos.mpr hslope.ne)
  le := by
    have hlow : c2 * Vec.dot it.point.g d ≤ Vec.dot new.g d := by
      have hneg := neg_le_of_abs_le hflat
      linarith
    have hcurvature : Vec.dot (it.pair new).s (it.pair new).y =
        t * (Vec.dot new.g d - Vec.dot it.point.g d) := by
      simp only [Iterate.pair, hx, Vec.dot_real, Vec.get_scale_eq, Vec.get_sub, smul_dotProduct, smul_eq_mul]
      rw [dotProduct_sub, dotProduct_comm d.get, dotProduct_comm d.get]
    rw [hcurvature, abs_of_neg hslope, mul_assoc]
    refine mul_le_mul_of_nonneg_left ?_ ht.le
    linarith

theorem sought_curved (hs : s.Checked) (hx : s.bounds.Inside it.point.x) (hd : Falling s it d)
    (h : sought s it d p w = (.ok found, e, w')) {new : Point ℝ n} (hnew : found.point = some new)
    (hflat : |Vec.dot new.g d| ≤ s.options.c2 * -Vec.dot it.point.g d) :
    Curved s.options.c2 it d found.step (it.pair new) := by
  obtain ⟨hpos, halong⟩ := searched_along hs hx hd h hnew
  exact curved_of_flat hs.options.wolfe.2.2 hpos hd.slope halong hflat

theorem accepted_offered (hm : it.memory.Ample) (t : ℝ) (new : Point ℝ n) : ∃ m',
    (accepted s it .converged t new p w).phase =
        .check { point := new, previous := some it.point.f, memory := m' } ∧
      (accepted s it .converged t new p w).progress.step = t ∧
      (Scalar.epsilon * Vec.dot (it.pair new).y (it.pair new).y < Vec.dot (it.pair new).s (it.pair new).y ∧
          it.memory.push (it.pair new) = .stored m' ∧ m'.pairs.getLast? = some (it.pair new) ∨
        Vec.dot (it.pair new).s (it.pair new).y ≤ Scalar.epsilon * Vec.dot (it.pair new).y (it.pair new).y ∧
          it.memory.push (it.pair new) = .refused ∧ m' = it.memory) := by
  have hpair : (⟨new.x - it.point.x, new.g - it.point.g⟩ : Pair ℝ n) = it.pair new := rfl
  simp only [accepted, if_true, hpair]
  rcases hm.push_cases (it.pair new) with ⟨m', hcurved, hpush, hlast⟩ | ⟨hflat, hpush⟩
  · rw [hpush]
    exact ⟨m', rfl, rfl, .inl ⟨hcurved, rfl, hlast⟩⟩
  · rw [hpush]
    exact ⟨it.memory, rfl, rfl, .inr ⟨hflat, rfl, rfl⟩⟩

end Run

namespace Housed

variable {κ : Type}

/-- A search that converges offers the memory a pair along its direction, with a positive curvature. The memory stores
it as its latest, or refuses it because that curvature is lost in rounding. -/
theorem search_curved {v : Housed ℝ κ} (hv : v.Used) {offer : Offer ℝ (World ℝ κ)} {start : Start ℝ} {o : Options ℝ}
    (ho : o.Checked) {p : Solver.Problem ℝ (World ℝ κ)} (hp : Solver.prepare (.ok o) offer start = .ok p)
    (w : World ℝ κ) {k : Nat} {it : Iterate ℝ p.n} {d : Vector ℝ p.n}
    (hphase : (v.solver.trace p w k).phase = .search it d) {found : Found ℝ (Point ℝ p.n)}
    {e : Evaluator (Vector ℝ p.n) ℝ p.n} {w' : World ℝ κ}
    (hfound : Run.sought (v.solver.toSetup p) it d (v.solver.trace p w k).progress (v.solver.trace p w k).world =
      (.ok found, e, w')) (hconverged : found.outcome = .converged) :
    ∃ (new : Point ℝ p.n) (q : Pair ℝ p.n) (m' : Memory ℝ p.n),
      found.point = some new ∧ q = ⟨new.x - it.point.x, new.g - it.point.g⟩ ∧
      q.s = Vec.scale found.step d ∧
      found.step * (1 - o.c2) * |Vec.dot it.point.g d| ≤ Vec.dot q.s q.y ∧
      0 < found.step * (1 - o.c2) * |Vec.dot it.point.g d| ∧
      (v.solver.trace p w (k + 1)).phase = .check { point := new, previous := some it.point.f, memory := m' } ∧
      (v.solver.trace p w (k + 1)).progress.step = found.step ∧
      (Scalar.epsilon * Vec.dot q.y q.y < Vec.dot q.s q.y ∧ it.memory.push q = .stored m' ∧
          m'.pairs.getLast? = some q ∨
        Vec.dot q.s q.y ≤ Scalar.epsilon * Vec.dot q.y q.y ∧ it.memory.push q = .refused ∧ m' = it.memory) := by
  have hs : (v.solver.toSetup p).Checked := Solver.prepare_checked v.solver ho hp
  obtain ⟨rfl, -⟩ := Solver.prepare_options hp
  have hstep : v.solver.trace p w (k + 1) = Run.step (v.solver.toSetup p) (v.solver.trace p w k) :=
    Run.after_succ _ _ _ _
  have hample : (v.solver.trace p w k).phase.memory.Ample := by
    rw [Solver.trace, hv.fits.renew_eq_empty]
    exact Run.after_ample (Memory.empty_ample ho.depth.1) _ _
  have hdescends : Run.Descends (v.solver.toSetup p) (v.solver.trace p w k).phase :=
    (Run.after_reachable _ _ _ _).descends hs
  generalize v.solver.trace p w k = st at hphase hfound hstep hample hdescends
  obtain ⟨phase, progress, world⟩ := st
  obtain rfl : phase = .search it d := hphase
  cases hdescends with
  | search hgo hd =>
      obtain ⟨new, hnew, hfault, hflat⟩ := Run.sought_converged hs hd hfound hconverged
      have hcurved := Run.sought_curved hs hgo.inside hd hfound hnew hflat
      obtain ⟨w2, hsearching⟩ := Run.searching_converged hd hfound hconverged hnew hfault
      obtain ⟨m', hcheck, hsame, hoffered⟩ := @Run.accepted_offered _ _ (v.solver.toSetup p) it
        { progress with evaluator := e, outcome := some .converged } w2 hample found.step new
      have hnext : v.solver.trace p w (k + 1) = Run.accepted (v.solver.toSetup p) it .converged found.step new
          { progress with evaluator := e, outcome := some .converged } w2 := hstep.trans hsearching
      rw [hnext]
      exact ⟨new, it.pair new, m', hnew, rfl, hcurved.along, hcurved.le, hcurved.pos, hcheck, hsame, hoffered⟩

/-- The pair of the first step for the square from one: it goes back by one, and the gradient falls by two. -/
theorem kept_pair : (⟨(Solver.squareAt 0).x - (Solver.squareAt 1).x, (Solver.squareAt 0).g - (Solver.squareAt 1).g⟩ :
    Pair ℝ 1) = ⟨#v[-1], #v[-2]⟩ := by
  rw [Pair.mk.injEq]
  constructor <;>
  · refine Vec.ext_get (funext fun i => ?_)
    rw [Fin.fin_one_eq_zero i, Vec.get_sub]
    norm_num [Vec.get_eq_getElem, Solver.squareAt]

theorem search_curved_kept : ∃ (it : Iterate ℝ 1) (m : Memory ℝ 1),
    (new 0 .standard none : Housed ℝ Unit).Used ∧ Solver.keptOptions.Checked ∧
      Solver.prepare (.ok Solver.keptOptions) (.function Solver.square) (.array [1] [1]) = .ok Solver.keptProblem ∧
      (Solver.squareSolver.trace Solver.keptProblem { session := {}, client := () } 5).phase = .search it #v[-2] ∧
      (Solver.squareSolver.trace Solver.keptProblem { session := {}, client := () } 6).phase =
        .check { point := Solver.squareAt 0, previous := some 1, memory := m } ∧
      m.pairs.getLast? = some ⟨#v[-1], #v[-2]⟩ := by
  have hused : (new 0 .standard none : Housed ℝ Unit).Used := .new 0 .standard none
  have hdirection : -(Solver.squareAt 1).g = #v[-2] := by
    refine Vec.ext_get (funext fun i => ?_)
    rw [Fin.fin_one_eq_zero i, Vec.get_neg]
    norm_num [Vec.get_eq_getElem, Solver.squareAt]
  have hvalue : (Solver.squareAt 1).f = 1 := mul_one 1
  obtain ⟨w, hfive⟩ := Solver.squaring_kept.after_five (.empty 1 5)
    (World.enter { session := {}, client := () } 0 .silent).1
  have hpoint := Solver.squaring_kept.first_point (.empty 1 5)
  have hstate : (new 0 .standard none : Housed ℝ Unit).solver.trace Solver.keptProblem
      { session := {}, client := () } 5 = _ := hfive
  have hsearch := (congrArg State.phase hfive).trans (congrArg (Phase.search _) hdirection)
  have hsought := Solver.squaring_kept.sought hpoint (p := Run.firstProgress (Solver.squareSolver.setup Solver.keptProblem)
    (Solver.squareAt 1).f (Solver.squareAt 1).g) rfl rfl rfl w
  obtain ⟨new, q, m, hnew, hq, -, -, -, hcheck, -, hoffered⟩ := search_curved hused Solver.keptOptions_checked
    Solver.prepare_kept { session := {}, client := () } (congrArg State.phase hstate) (by rw [hstate]; exact hsought) rfl
  obtain rfl : Solver.squareAt (1 - 1) = new := Option.some.inj hnew
  rw [sub_self, hpoint] at hcheck hq
  rw [hvalue] at hcheck
  obtain rfl : q = ⟨#v[-1], #v[-2]⟩ := hq.trans kept_pair
  have hcurved : Scalar.epsilon * Vec.dot (#v[-2] : Vector ℝ 1) #v[-2] < Vec.dot (#v[-1] : Vector ℝ 1) #v[-2] := by
    have hsmall := Scalar.epsilon_lt
    norm_num [Vec.dot]
    linarith
  rcases hoffered with ⟨-, -, hlast⟩ | ⟨hflat, -, -⟩
  · exact ⟨_, m, hused, Solver.keptOptions_checked, Solver.prepare_kept, hsearch, hcheck, hlast⟩
  · exact absurd hflat (not_le.mpr hcurved)

end Housed

end BoxBfgs
