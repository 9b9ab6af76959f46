import BoxBfgs.Proofs.Memory.Room
import BoxBfgs.Proofs.Run.Exact

namespace BoxBfgs

namespace Room

theorem size_fill {α : Type} {n : Nat} (r : Room α n) (m : Memory α n) : (r.fill m).size = m.size := by
  rw [fill]
  split
  · rename_i h
    exact List.length_take_of_le h
  · rfl

variable {α : Type} [Scalar α] {n : Nat}

/-- The room for a run. That of the last run is used again as it is, if the dimension and the depth stay. -/
def renew (old : Option ((n : Nat) × Room α n)) (n depth : Nat) : Room α n :=
  match old with
  | none => .empty n depth
  | some ⟨k, r⟩ => if h : k = n then if r.capacity = depth then h ▸ r else .empty n depth else .empty n depth

theorem renew_cases (old : Option ((n : Nat) × Room α n)) (n depth : Nat) : renew old n depth = .empty n depth ∨
    ∃ r, old = some ⟨n, r⟩ ∧ r.capacity = depth ∧ renew old n depth = r := by
  cases old with
  | none => exact .inl rfl
  | some r =>
      obtain ⟨k, r⟩ := r
      rw [renew]
      split_ifs with hk hdepth
      · subst hk
        exact .inr ⟨r, rfl, hdepth, rfl⟩
      · exact .inl rfl
      · exact .inl rfl

theorem capacity_renew (old : Option ((n : Nat) × Room α n)) (n depth : Nat) :
    (renew old n depth).capacity = depth := by
  rcases renew_cases old n depth with h | ⟨r, -, hdepth, h⟩
  · rw [h, capacity_empty]
  · rw [h, hdepth]

/-- What a solver keeps of its last run: a memory, and room in which at least its pairs are found. -/
inductive Fits : Option ((n : Nat) × Memory α n) → Option ((n : Nat) × Room α n) → Prop
  | none : Fits none none
  | some {n : Nat} {m : Memory α n} {r : Room α n} (hr : r.Shaped) (hm : r.Holds m) : Fits (some ⟨n, m⟩) (some ⟨n, r⟩)

namespace Fits

variable {m? : Option ((n : Nat) × Memory α n)} {r? : Option ((n : Nat) × Room α n)}

theorem renew_shaped (h : Fits m? r?) (n depth : Nat) : (renew r? n depth).Shaped := by
  rcases renew_cases r? n depth with he | ⟨r, rfl, -, he⟩
  · rw [he]
    exact empty_shaped n depth
  · rw [he]
    cases h with
    | some hr => exact hr

/-- The memory that a run starts with does not depend on the one that was left. -/
theorem renew_eq_empty (h : Fits m? r?) (n depth : Nat) : Memory.renew m? n depth = .empty n depth := by
  cases h with
  | none => rfl
  | @some k m r hr hm =>
      rw [Memory.renew]
      split_ifs with hk hdepth
      · subst hk
        have hcapacity : m.capacity = depth := by
          rw [hm.capacity]
          exact_mod_cast hm.depth.symm.trans hdepth
        have hclear : (m.clear : Memory α k) = { depth := m.depth, capacity := m.capacity, theta := 1 } := rfl
        rw [hclear, hdepth, hcapacity]
        rfl
      · rfl
      · rfl

theorem renew_holds (h : Fits m? r?) (n depth : Nat) : (renew r? n depth).Holds (Memory.renew m? n depth) := by
  rw [h.renew_eq_empty]
  have hcapacity := capacity_renew r? n depth
  exact holds_nil (congrArg Int.ofNat hcapacity.symm) hcapacity.symm rfl rfl rfl

end Fits

end Room

namespace Phase

variable {α : Type} [Scalar α] {n : Nat}

/-- The phase with its memory read from room. -/
def fill (r : Room α n) : Phase α n → Phase α n
  | .start m => .start (r.fill m)
  | .evaluating m => .evaluating (r.fill m)
  | .check it => .check { it with memory := r.fill it.memory }
  | .cauchy it => .cauchy { it with memory := r.fill it.memory }
  | .subspace it c => .subspace { it with memory := r.fill it.memory } (c.map (cast (by rw [r.size_fill])))
  | .search it d => .search { it with memory := r.fill it.memory } d
  | .ended m current reason => .ended (r.fill m) current reason
  | .escaped m why => .escaped (r.fill m) why

theorem fill_of_holds {r : Room α n} (hr : r.Shaped) {ph : Phase α n} (h : r.Holds ph.memory) : ph.fill r = ph := by
  have hfill : r.fill ph.memory = ph.memory := h.fill hr
  cases ph with
  | start m => exact congrArg Phase.start hfill
  | evaluating m => exact congrArg Phase.evaluating hfill
  | check it => exact congrArg (fun memory => Phase.check { it with memory }) hfill
  | cauchy it => exact congrArg (fun memory => Phase.cauchy { it with memory }) hfill
  | search it d => exact congrArg (fun memory => Phase.search { it with memory } d) hfill
  | ended m current reason => exact congrArg (Phase.ended · current reason) hfill
  | escaped m why => exact congrArg (Phase.escaped · why) hfill
  | subspace it c =>
      obtain ⟨point, previous, memory⟩ := it
      -- With the memory in place of what was read, nothing is left of the cast.
      have hcast {m : Memory α n} (hm : m = memory) (hc : CauchyPoint α n memory.size = CauchyPoint α n m.size) :
          Phase.subspace ⟨point, previous, m⟩ (c.map (cast hc)) = .subspace ⟨point, previous, memory⟩ c := by
        subst hm
        cases c <;> rfl
      exact hcast hfill _

end Phase

namespace Run

variable {α κ : Type} [Scalar α] {n : Nat} (s : Setup α κ n)

/-- A step of a run that reads its memory from room and stores its pairs there. -/
def stepInRoom (x : Room α n × State α κ n) : Room α n × State α κ n :=
  let st : State α κ n := { x.2 with phase := x.2.phase.fill x.1 }
  (x.1.store st.phase.memory (stored? st (step s st)), step s st)

def afterInRoom (r : Room α n) (m : Memory α n) (w : World α κ) (k : Nat) : Room α n × State α κ n :=
  (stepInRoom s)^[k] (r, first s m w)

/-- A run whose memory is where it is expected to be. -/
structure Lodged (x : Room α n × State α κ n) : Prop where
  shaped : x.1.Shaped
  holds : x.1.Holds x.2.phase.memory

variable {s} {x : Room α n × State α κ n}

theorem Lodged.step_eq (h : Lodged x) :
    stepInRoom s x = (x.1.store x.2.phase.memory (stored? x.2 (step s x.2)), step s x.2) := by
  have hphase := Phase.fill_of_holds h.shaped h.holds
  simp only [stepInRoom, hphase]

theorem Lodged.step (h : Lodged x) : Lodged (stepInRoom s x) := by
  rw [h.step_eq]
  exact ⟨Room.store_shaped h.shaped _ _, h.holds.turned (step_memory _)⟩

/-- Whatever else the room holds, the run takes the way it takes without any. -/
theorem afterInRoom_eq {r : Room α n} {m : Memory α n} (hr : r.Shaped) (hm : r.Holds m) (w : World α κ) (k : Nat) :
    Lodged (afterInRoom s r m w k) ∧ (afterInRoom s r m w k).2 = after s m w k := by
  induction k with
  | zero => exact ⟨⟨hr, hm⟩, rfl⟩
  | succ k ih =>
      have hsucc : afterInRoom s r m w (k + 1) = stepInRoom s (afterInRoom s r m w k) :=
        Function.iterate_succ_apply' _ _ _
      rw [hsucc, after_succ, ← ih.2]
      exact ⟨ih.1.step, congrArg Prod.snd ih.1.step_eq⟩

end Run

/-- A solver with the room that its last run has left. -/
structure Housed (α κ : Type) where
  solver : Solver α κ
  room : Option ((n : Nat) × Room α n)

namespace Housed

variable {α κ : Type}

def new (id : Nat) (options : Options α) (callback : Option (Callback α κ)) : Housed α κ :=
  { solver := { id, options, callback }, room := none }

variable [Scalar α]

def solve (v : Housed α κ) (p : Solver.Problem α (World α κ)) (w : World α κ) :
    Except (Fault α) (Answer α) × Housed α κ × World α κ :=
  let (w, saved) := w.enter v.solver.id p.options.verbosity
  let (r, st) := Run.afterInRoom (v.solver.toSetup p) (.renew v.room p.n p.options.depth)
    (.renew v.solver.memory p.n p.options.depth) w (Run.fuel p.options.iterations.rounds)
  let (answer, solver, w) := v.solver.closed p saved st
  (answer, { solver, room := some ⟨p.n, r⟩ }, w)

def minimize (v : Housed α κ) (offer : Offer α (World α κ)) (start : Start α)
    (options : Except (Fault α) (Options α)) (w : World α κ) : Except (Fault α) (Answer α) × Housed α κ × World α κ :=
  if w.isRunning v.solver.id then (.error .reentered, v, w)
  else
    match Solver.prepare options offer start with
    | .ok p => v.solve p w
    | .error (.invalid why) =>
        let (r, w) := Solver.reject start why w
        (r, v, w)
    | .error why => (.error why, v, w)

/-- The solvers that any calls lead to, however they went, with other options and callbacks in between. -/
inductive Used : Housed α κ → Prop
  | new (id : Nat) (options : Options α) (callback : Option (Callback α κ)) : Used (.new id options callback)
  | configured {v : Housed α κ} (h : Used v) (options : Options α) (callback : Option (Callback α κ)) :
      Used { v with solver := { v.solver with options, callback } }
  | minimized {v : Housed α κ} (h : Used v) (offer : Offer α (World α κ)) (start : Start α)
      (options : Except (Fault α) (Options α)) (w : World α κ) : Used (v.minimize offer start options w).2.1

/-- What a call comes to with room and without, and that the room left fits the memory. -/
structure Mirrors (r : Except (Fault α) (Answer α) × Housed α κ × World α κ)
    (r' : Except (Fault α) (Answer α) × Solver α κ × World α κ) : Prop where
  answer : r.1 = r'.1
  solver : r.2.1.solver = r'.2.1
  world : r.2.2 = r'.2.2
  fits : Room.Fits r.2.1.solver.memory r.2.1.room

variable {v : Housed α κ}

theorem solve_mirrors (h : Room.Fits v.solver.memory v.room) (p : Solver.Problem α (World α κ)) (w : World α κ) :
    Mirrors (v.solve p w) (v.solver.solve p w) := by
  obtain ⟨hlodged, heq⟩ := Run.afterInRoom_eq (s := v.solver.toSetup p) (h.renew_shaped p.n p.options.depth)
    (h.renew_holds p.n p.options.depth) (w.enter v.solver.id p.options.verbosity).1
    (Run.fuel p.options.iterations.rounds)
  rw [Solver.solve_eq, Solver.final_eq_trace, Solver.trace, ← heq]
  generalize hx : Run.afterInRoom (v.solver.toSetup p) (Room.renew v.room p.n p.options.depth)
    (Memory.renew v.solver.memory p.n p.options.depth) (w.enter v.solver.id p.options.verbosity).1
    (Run.fuel p.options.iterations.rounds) = x at hlodged
  have hsolve : v.solve p w =
      ((v.solver.closed p (w.enter v.solver.id p.options.verbosity).2 x.2).1,
        { solver := (v.solver.closed p (w.enter v.solver.id p.options.verbosity).2 x.2).2.1,
          room := some ⟨p.n, x.1⟩ },
        (v.solver.closed p (w.enter v.solver.id p.options.verbosity).2 x.2).2.2) := by
    rw [← hx]
    rfl
  have hmemory : (v.solver.closed p (w.enter v.solver.id p.options.verbosity).2 x.2).2.1.memory =
      some ⟨p.n, x.2.phase.memory⟩ := by
    simp only [Solver.closed]
    split <;> rfl
  rw [hsolve]
  refine ⟨rfl, rfl, rfl, ?_⟩
  dsimp only
  rw [hmemory]
  exact .some hlodged.shaped hlodged.holds

theorem minimize_mirrors (h : Room.Fits v.solver.memory v.room) (offer : Offer α (World α κ)) (start : Start α)
    (options : Except (Fault α) (Options α)) (w : World α κ) :
    Mirrors (v.minimize offer start options w) (v.solver.minimize offer start options w) := by
  rw [minimize, Solver.minimize]
  split
  · exact ⟨rfl, rfl, rfl, h⟩
  · cases Solver.prepare options offer start with
    | ok p => exact solve_mirrors h p w
    | error why => cases why <;> exact ⟨rfl, rfl, rfl, h⟩

theorem minimize_of_error {offer : Offer α (World α κ)} {start : Start α} {options : Except (Fault α) (Options α)}
    {w : World α κ} {why : Fault α} (h : Solver.prepare options offer start = .error why) :
    (v.minimize offer start options w).2.1 = v := by
  rw [minimize, h]
  split
  · rfl
  · cases why <;> rfl

theorem Used.fits (h : v.Used) : Room.Fits v.solver.memory v.room := by
  induction h with
  | new => exact .none
  | configured _ _ _ ih => exact ih
  | minimized _ offer start options w ih => exact (minimize_mirrors ih offer start options w).fits

/-- A run does not depend on what the runs before it have left. -/
theorem solve_eq_new (h : Room.Fits v.solver.memory v.room) (p : Solver.Problem α (World α κ)) (w : World α κ) :
    v.solver.solve p w = (new v.solver.id v.solver.options v.solver.callback).solver.solve p w := by
  have hrenew := h.renew_eq_empty p.n p.options.depth
  rw [Solver.solve_eq, Solver.solve_eq, Solver.final_eq_trace, Solver.final_eq_trace, Solver.trace, Solver.trace,
    hrenew]
  rfl

/-- A call of a used solver comes to the same as one of a new solver in its place. A call that is refused leaves the
solver as it was; any other one leaves it as it leaves the new one. -/
theorem minimize_reused (h : v.Used) (offer : Offer α (World α κ)) (start : Start α)
    (options : Except (Fault α) (Options α)) (w : World α κ) :
    (v.minimize offer start options w).1 =
        ((new v.solver.id v.solver.options v.solver.callback).minimize offer start options w).1 ∧
      (v.minimize offer start options w).2.2 =
        ((new v.solver.id v.solver.options v.solver.callback).minimize offer start options w).2.2 ∧
      (∀ p, Solver.prepare options offer start = .ok p → w.isRunning v.solver.id = false →
        (v.minimize offer start options w).2.1.solver =
          ((new v.solver.id v.solver.options v.solver.callback).minimize offer start options w).2.1.solver) ∧
      ∀ why, Solver.prepare options offer start = .error why → (v.minimize offer start options w).2.1 = v := by
  have hused := minimize_mirrors h.fits offer start options w
  have hnew := minimize_mirrors (v := new v.solver.id v.solver.options v.solver.callback) .none offer start options w
  rw [hused.answer, hused.world, hused.solver, hnew.answer, hnew.world, hnew.solver]
  have hid : (new v.solver.id v.solver.options v.solver.callback).solver.id = v.solver.id := rfl
  rw [Solver.minimize, Solver.minimize, hid]
  cases hrun : w.isRunning v.solver.id with
  | true => exact ⟨rfl, rfl, fun _ _ hidle => Bool.noConfusion hidle, fun _ hp => minimize_of_error hp⟩
  | false =>
      simp only [Bool.false_eq_true, if_false]
      cases hp : Solver.prepare options offer start with
      | ok p =>
          have hsolve := solve_eq_new h.fits p w
          dsimp only
          rw [hsolve]
          exact ⟨rfl, rfl, fun _ _ _ => rfl, fun why hwhy => by cases hwhy⟩
      | error why =>
          have hnone : ∀ p : Solver.Problem α (World α κ),
              (Except.error why : Except (Fault α) (Solver.Problem α (World α κ))) ≠ .ok p := fun p h => by cases h
          cases why <;> exact ⟨rfl, rfl, fun p hp' => absurd hp' (hnone p), fun _ _ => minimize_of_error hp⟩

section

def blank : World ℝ Unit := { session := {}, client := () }

/-- An objective that gives up. -/
def givesUp : Callable ℝ (World ℝ Unit) (ℝ × Tensor ℝ) := fun _ w => (.abort "", w)

/-- A solver after a run that failed where it started. -/
noncomputable def failedOnce : Housed ℝ Unit :=
  ((new 0 .standard none).minimize (.function givesUp) (.array [1] [0]) (.ok .standard) blank).2.1

theorem failedOnce_used : failedOnce.Used := .minimized (.new 0 .standard none) _ _ _ _

theorem failedOnce_evaluations : failedOnce.solver.evaluations = 1 := by
  have hmirrors := minimize_mirrors (v := new 0 .standard none) .none (.function givesUp) (.array [1] [0])
    (.ok .standard) blank
  let p : Solver.Problem ℝ (World ℝ Unit) :=
    { n := 1, objective := .combined givesUp, options := .standard, bounds := .free 1,
      start := (Bounds.free 1).project #v[0] }
  have hp : Solver.prepare (.ok .standard) (.function givesUp) (.array [1] [0]) = .ok p := rfl
  have hfinal : ((new 0 .standard none).solver.trace p blank 2).phase.final = true := rfl
  have htrace : (new 0 .standard none).solver.trace p blank (Run.fuel p.options.iterations.rounds) =
      (new 0 .standard none).solver.trace p blank 2 := Run.after_of_final hfinal (by decide)
  rw [failedOnce, hmirrors.solver, Solver.minimize_of_prepare rfl hp, Solver.solve_eq, Solver.final_eq_trace, htrace]
  rfl

/-- A used solver that refuses a start without numbers still tells the evaluation that it made before. -/
theorem minimize_refused_evaluations : failedOnce.Used ∧
    (failedOnce.minimize (.function givesUp) (.array [0] []) (.ok .standard) blank).2.1.solver.evaluations = 1 ∧
    ((new failedOnce.solver.id failedOnce.solver.options failedOnce.solver.callback).minimize (.function givesUp)
      (.array [0] []) (.ok .standard) blank).2.1.solver.evaluations = 0 := by
  refine ⟨failedOnce_used, ?_, ?_⟩
  · have hp : Solver.prepare (.ok .standard) (.function givesUp) (.array [0] []) =
        .error (.invalid (.start (.shape [0]))) := rfl
    rw [minimize_of_error hp, failedOnce_evaluations]
  · rfl

theorem minimize_reused_square : failedOnce.Used ∧
    Solver.prepare (.ok .standard) (.function Solver.square) (.array [1] [1]) = .ok Solver.squareProblem ∧
    (failedOnce.minimize (.function Solver.square) (.array [1] [1]) (.ok .standard) blank).1 =
      ((new failedOnce.solver.id failedOnce.solver.options failedOnce.solver.callback).minimize
        (.function Solver.square) (.array [1] [1]) (.ok .standard) blank).1 ∧
    (failedOnce.minimize (.function Solver.square) (.array [1] [1]) (.ok .standard) blank).2.1.solver.evaluations =
      ((new failedOnce.solver.id failedOnce.solver.options failedOnce.solver.callback).minimize
        (.function Solver.square) (.array [1] [1]) (.ok .standard) blank).2.1.solver.evaluations := by
  have hp : Solver.prepare (.ok .standard) (.function Solver.square) (.array [1] [1]) = .ok Solver.squareProblem := rfl
  obtain ⟨hanswer, -, hsolver, -⟩ := minimize_reused failedOnce_used (.function Solver.square) (.array [1] [1])
    (.ok .standard) blank
  exact ⟨failedOnce_used, hp, hanswer, congrArg Solver.evaluations (hsolver _ hp rfl)⟩

end

end Housed

end BoxBfgs
