import BoxBfgs.Proofs.Run.Exit
import BoxBfgs.Proofs.Run.Heard

namespace BoxBfgs

namespace Memory

variable {n : Nat} {m : Memory ℝ n}

theorem Sound.curved (h : m.Sound) {p : Pair ℝ n} (hp : p ∈ m.pairs) :
    Scalar.epsilon * Vec.dot p.y p.y < Vec.dot p.s p.y := by
  have hadmissible := h.admissible p hp
  simpa only [Memory.admissible, Scalar.isFinite_real, Bool.and_self, Bool.true_and, decide_eq_true_eq]
    using hadmissible

/-- What makes a pair admissible bounds the scaling that it gives. -/
theorem Sound.theta_lt (h : m.Sound) : m.theta < 1 / Scalar.epsilon := by
  have hepsilon := Scalar.epsilon_pos
  rw [h.theta, scaling]
  cases hl : m.pairs.getLast? with
  | none =>
      rw [lt_div_iff₀ hepsilon, one_mul, Scalar.epsilon]
      norm_num
  | some p =>
      have hp := List.mem_of_getLast? hl
      have hcurved := h.curved hp
      have hpos := Memory.curvature_pos (h.admissible p hp)
      rw [Vec.dot_real, Vec.dot_real, dotProduct_comm p.s.get] at hcurved
      rw [Pair.curvature, dotProduct_comm] at hpos
      dsimp only
      rwa [div_lt_div_iff₀ hpos hepsilon, one_mul, mul_comm]

end Memory

namespace Run

section

variable {α κ : Type} [Scalar α] {n : Nat} {s : Setup α κ n} {m : Memory α n} {w : World α κ} {k : Nat}

theorem after_depth : (after s m w k).phase.memory.depth = m.depth :=
  after_memory (P := fun m' => m'.depth = m.depth) rfl (fun h hm => h.sizes.1.trans hm) w k

/-- Where nothing has moved, the tests for the end come to the same. -/
theorem Even.reason? {kept : Prop} {p p' : Progress α n} (h : Even (.still α n) kept p p') (it : Iterate α n)
    (norm : α) : reason? s it norm p' = Run.reason? s it norm p := by
  simp only [Run.reason?, h.iterations, h.evaluator, Motion.evaluator_still]

end

variable {κ : Type} {n : Nat}

/-- What a run keeps from one iterate to the next. -/
structure Orderly (s : Setup ℝ κ n) (it : Iterate ℝ n) : Prop where
  inspected : inspect s it = .ok ()
  inside : s.bounds.Inside it.point.x
  curved : ∀ p ∈ it.memory.pairs, Scalar.epsilon * Vec.dot p.y p.y < Vec.dot p.s p.y
  theta_pos : 0 < it.memory.theta
  theta_lt : it.memory.theta < 1 / Scalar.epsilon
  size : it.memory.size ≤ s.options.depth

variable {s : Setup ℝ κ n} {w : World ℝ κ} {k : Nat} {it : Iterate ℝ n}

theorem after_orderly (hs : s.Checked) {m : Memory ℝ n} (hm : m.Roomy) (hdepth : m.depth = s.options.depth)
    (hcheck : (after s m w k).phase = .check it) : Orderly s it := by
  have hregular := after_regular hs hm hcheck
  have hsame : (after s m w k).phase.memory.depth = m.depth := after_depth
  have hsize := hregular.roomy.size
  rw [hcheck] at hsame
  have hstored : it.memory.depth = s.options.depth := hsame.trans hdepth
  rw [hstored] at hsize
  exact { inspected := hregular.inspected, inside := hregular.inside, curved := fun p hp => hregular.sound.curved hp,
          theta_pos := hregular.sound.theta_pos, theta_lt := hregular.sound.theta_lt, size := by exact_mod_cast hsize }

end Run

namespace Solver

variable {κ : Type}

theorem trace_orderly (v : Solver ℝ κ) {p : Problem ℝ (World ℝ κ)} (hs : (v.setup p).Checked) (w : World ℝ κ) {k : Nat}
    {it : Iterate ℝ p.n} (hcheck : (v.trace p w k).phase = .check it) : Run.Orderly (v.toSetup p) it :=
  Run.after_orderly hs (Memory.renew_roomy v.memory p.n hs.options.depth.1) (Memory.depth_renew _ _ _) hcheck

/-- The checks between iterates find fault with nothing, so that a minimisation comes to the same with them and without
them: at each iterate they find a point of the box with the value and the gradient that the objective gave there, and a
memory of the right size whose pairs and scaling are in order. -/
theorem minimize_checks (v : Solver ℝ κ) (f : Option (Listener ℝ κ)) (offer : Offer ℝ κ) (start : Start ℝ)
    {o : Options ℝ} (ho : o.Checked) (w : World ℝ (Heard ℝ κ)) :
    (((v.heard f).minimize offer.heard start (.ok o) (w.checks true)).1 =
        ((v.heard f).minimize offer.heard start (.ok o) (w.checks false)).1 ∧
      ((v.heard f).minimize offer.heard start (.ok o) (w.checks true)).2.1.iterations =
        ((v.heard f).minimize offer.heard start (.ok o) (w.checks false)).2.1.iterations ∧
      ((v.heard f).minimize offer.heard start (.ok o) (w.checks true)).2.1.evaluations =
        ((v.heard f).minimize offer.heard start (.ok o) (w.checks false)).2.1.evaluations ∧
      ((v.heard f).minimize offer.heard start (.ok o) (w.checks true)).2.1.history =
        ((v.heard f).minimize offer.heard start (.ok o) (w.checks false)).2.1.history ∧
      ((v.heard f).minimize offer.heard start (.ok o) (w.checks true)).2.2.client =
        ((v.heard f).minimize offer.heard start (.ok o) (w.checks false)).2.2.client) ∧
    ∀ p, prepare (.ok o) offer.heard start = .ok p → ∀ d k it,
      ((v.heard f).trace p (w.checks d) k).phase = .check it →
        Run.Orderly ((v.heard f).toSetup p) it ∧
          it.point ∈ Call.points p.n
            ((v.heard f).watched.trace p.watched ((w.checks d).watched []) k).world.calls := by
  refine ⟨?_, fun p hp d k it hcheck => ?_⟩
  · have hstart : (Drift.still ℝ).start start = start := Drift.start_still start
    have hbefore : Agree (.still ℝ) Eq True (.error .reentered, v.heard f, w.checks false)
        (.error .reentered, v.heard f, w.checks true) :=
      ⟨rfl, rfl, rfl, fun _ => (Drift.map_record_still _).symm, rfl⟩
    have hcalls : Agree (.still ℝ) Eq True ((v.heard f).minimize offer.heard start (.ok o) (w.checks false))
        ((v.heard f).minimize offer.heard ((Drift.still ℝ).start start) (.ok o) (w.checks true)) := by
      refine minimize_agree hbefore rfl ?_
      rw [hstart]
      cases hp : prepare (.ok o) offer.heard start with
      | error why => exact .inl ⟨why, rfl, rfl⟩
      | ok p =>
          refine .inr ⟨p, p, rfl, rfl, ?_⟩
          have hs := prepare_checked (v.heard f) ho hp
          obtain ⟨g, hg⟩ := prepare_heard hp
          have hmoves := Run.moves_still (s := (v.heard f).toSetup p) hg rfl rfl rfl false true
          have hw : Beside Eq false true (w.checks false) (w.checks true) := ⟨rfl, rfl, rfl⟩
          have hagree := solve_agree hmoves rfl rfl hw fun k it hcheck =>
            { inspected := by
                rw [Motion.iterate_still]
                exact (trace_orderly _ hs _ hcheck).inspected
              reason := fun norm q q' hq => by
                rw [Motion.iterate_still]
                exact hq.reason? it norm }
          exact { hagree with history := fun _ => hagree.history rfl }
    rw [hstart] at hcalls
    exact hcalls.same trivial
  · have hs := prepare_checked (v.heard f) ho hp
    refine ⟨trace_orderly _ hs _ hcheck, ?_⟩
    have hphase := ((v.heard f).phase_watched p (w.checks d) k).trans hcheck
    exact ((trace_held (v.heard f) hs (w.checks d) k).standing _ (congrArg Phase.point? hphase)).1

/-- The square, given by a client who keeps nothing. -/
noncomputable def clientSquare : Callable ℝ Unit (ℝ × Tensor ℝ) := fun x c =>
  let a := x.entries.headD 0
  (.answer (a * a, .ofVector (.replicate 1 (a + a))), c)

noncomputable def heardProblem : Problem ℝ (World ℝ (Heard ℝ Unit)) :=
  { n := 1, objective := .combined clientSquare.heard, options := .standard, bounds := .free 1,
    start := squareProblem.start }

theorem heard_call (w : World ℝ (Heard ℝ Unit)) :
    heardProblem.objective.call (.ofVector heardProblem.start) w = (.answer (1, .ofVector #v[2]), w) := by
  have hstart : heardProblem.start = (#v[1] : Vector ℝ 1) := Bounds.project_free _
  rw [hstart]
  simp [heardProblem, Objective.call, Callable.heard, clientSquare]
  norm_num

noncomputable def heardSolver : Solver ℝ (Heard ℝ Unit) := squareSolver.heard (some fun _ c => (.ok (), c))

noncomputable def heardWorld : World ℝ (Heard ℝ Unit) := { session := {}, client := ((), []) }

theorem minimize_checks_square : (Options.standard : Options ℝ).Checked ∧
    prepare (.ok .standard) (Offer.heard (.function clientSquare)) (.array [1] [1]) = .ok heardProblem ∧
    (heardSolver.minimize (Offer.heard (.function clientSquare)) (.array [1] [1]) (.ok .standard)
        (heardWorld.checks true)).1 =
      (heardSolver.minimize (Offer.heard (.function clientSquare)) (.array [1] [1]) (.ok .standard)
        (heardWorld.checks false)).1 ∧
    ∃ it, (heardSolver.trace heardProblem (heardWorld.checks true) 2).phase = .check it ∧
      Run.Orderly (heardSolver.toSetup heardProblem) it := by
  have hp : prepare (.ok .standard) (Offer.heard (.function clientSquare)) (.array [1] [1]) = .ok heardProblem := rfl
  obtain ⟨⟨hanswer, -⟩, htrace⟩ := minimize_checks squareSolver (some fun _ c => (.ok (), c)) (.function clientSquare)
    (.array [1] [1]) Options.standard_accepted.checked heardWorld
  obtain ⟨w', hcheck⟩ := Run.step_initial (s := heardSolver.toSetup heardProblem) (m := .empty 1 5)
    (w := ((heardWorld.checks true).enter 0 .silent).1) rfl heard_call
  have hphase := congrArg State.phase hcheck
  exact ⟨Options.standard_accepted.checked, hp, hanswer, _, hphase, (htrace _ hp true 2 _ hphase).1⟩

end Solver

end BoxBfgs
