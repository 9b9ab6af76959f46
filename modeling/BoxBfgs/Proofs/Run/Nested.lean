import BoxBfgs.Proofs.Run.Tandem

namespace BoxBfgs

section

variable {α κ β : Type}

namespace World

variable (w : World α κ) {id : Nat}

@[simp] theorem isRunning_emit (i : Nat) (needed : Verbosity) (level : Level) (e : Event α) :
    (w.emit i needed level e).isRunning id = w.isRunning id := by
  rw [emit]
  split <;> rfl

theorem isRunning_enter (verbosity : Verbosity) : (w.enter id verbosity).1.isRunning id = true := by
  simp only [enter]
  split <;> simp [isRunning, mapLog]

end World

/-- A client's function that stops no solver from running. -/
def Callable.Keeps (id : Nat) (f : Callable α (World α κ) β) : Prop :=
  ∀ x {w}, w.isRunning id = true → (f x w).2.isRunning id = true

def Offer.Keeps (id : Nat) : Offer α (World α κ) → Prop
  | .objective _ f | .function f => f.Keeps id
  | .object _ v g | .pair v g => (∀ f ∈ v, f.Keeps id) ∧ ∀ f ∈ g, f.Keeps id
  | .other _ => True

/-- A minimisation that a client's function asks for. -/
structure Inner (α κ : Type) where
  offer : Offer α (World α κ)
  start : Start α
  options : Except (Fault α) (Options α)

theorem Run.Together.eq {n : Nat} {R : World α κ → World α κ → Prop} {st st' : State α κ n} (h : Together R st st')
    (hworld : st'.world = st.world) : st' = st := by
  obtain ⟨phase, p, w⟩ := st
  obtain ⟨phase', p', w'⟩ := st'
  obtain ⟨rfl, rfl, -⟩ := h
  obtain rfl : w' = w := hworld
  rfl

end

namespace Solver

variable {α κ β : Type} [Scalar α]

/-- Asks a solver for minimisations as long as it refuses them because it runs: whether it refused them all. -/
def refuses (u : Solver α κ) : List (Inner α κ) → World α κ → Bool × World α κ
  | [], w => (true, w)
  | c :: rest, w =>
      match u.minimize c.offer c.start c.options w with
      | (.error .reentered, u, w) => u.refuses rest w
      | (_, _, w) => (false, w)

variable (u : Solver α κ) (before after : Tensor α → World α κ → List (Inner α κ))

/-- A client's function that asks a solver for minimisations before and after its work. It goes on when they are
refused, and gives up if one of them is not. -/
def nesting (f : Callable α (World α κ) β) : Callable α (World α κ) β := fun x w =>
  match u.refuses (before x w) w with
  | (false, w) => (.abort "", w)
  | (true, w) =>
      let (r, w) := f x w
      match u.refuses (after x w) w with
      | (false, w) => (.abort "", w)
      | (true, w) => (r, w)

def nestingOffer : Offer α (World α κ) → Offer α (World α κ)
  | .objective name f => .objective name (u.nesting before after f)
  | .object sort v g => .object sort (v.map (u.nesting before after)) (g.map (u.nesting before after))
  | .pair v g => .pair (v.map (u.nesting before after)) (g.map (u.nesting before after))
  | .function f => .function (u.nesting before after f)
  | .other sort => .other sort

variable {u before after} {w : World α κ}

theorem minimize_of_running (h : w.isRunning u.id = true) (offer : Offer α (World α κ)) (start : Start α)
    (options : Except (Fault α) (Options α)) : u.minimize offer start options w = (.error .reentered, u, w) := by
  rw [minimize, h, if_pos rfl]

theorem refuses_of_running (h : w.isRunning u.id = true) (calls : List (Inner α κ)) : u.refuses calls w = (true, w) := by
  induction calls with
  | nil => rfl
  | cons c rest ih =>
      rw [refuses, minimize_of_running h]
      exact ih

theorem nesting_of_running {f : Callable α (World α κ) β} (hf : f.Keeps u.id) (x : Tensor α)
    (h : w.isRunning u.id = true) : u.nesting before after f x w = f x w := by
  simp only [nesting, refuses_of_running h, refuses_of_running (hf x h)]

/-- The worlds in which a solver runs, each beside itself. -/
def Busy (id : Nat) (w w' : World α κ) : Prop := w' = w ∧ w.isRunning id = true

theorem combined_tandem {f : Callable α (World α κ) (α × Tensor α)} (hf : f.Keeps u.id) :
    (Objective.combined f).Tandem (Busy u.id) (.combined (u.nesting before after f)) := by
  rintro x _ w ⟨rfl, hw⟩
  have hcall : (Objective.combined (u.nesting before after f)).call x w = (Objective.combined f).call x w :=
    nesting_of_running hf x hw
  rw [hcall]
  exact ⟨rfl, rfl, hf x hw⟩

theorem split_tandem {v : Callable α (World α κ) α} {g : Callable α (World α κ) (Tensor α)} (hv : v.Keeps u.id)
    (hg : g.Keeps u.id) :
    (Objective.split v g).Tandem (Busy u.id) (.split (u.nesting before after v) (u.nesting before after g)) := by
  rintro x _ w ⟨rfl, hw⟩
  have hvalue := hv x hw
  have hcall : (Objective.split (u.nesting before after v) (u.nesting before after g)).call x w =
      (Objective.split v g).call x w ∧ ((Objective.split v g).call x w).2.isRunning u.id = true := by
    rw [Objective.call, Objective.call, nesting_of_running hv x hw]
    generalize v x w = r at hvalue
    obtain ⟨r, w1⟩ := r
    cases r with
    | answer a =>
        dsimp only
        rw [nesting_of_running hg x hvalue]
        exact ⟨rfl, hg x hvalue⟩
    | abort | arithmetic | fault => exact ⟨rfl, hvalue⟩
  rw [hcall.1]
  exact ⟨rfl, rfl, hcall.2⟩

theorem nestingOffer_tandem {offer : Offer α (World α κ)} (h : offer.Keeps u.id) :
    offer.Tandem (Busy u.id) (u.nestingOffer before after offer) := by
  cases offer with
  | objective name f => exact .adapted rfl rfl (combined_tandem h)
  | function f => exact .adapted rfl rfl (combined_tandem h)
  | other sort => exact .refused rfl rfl
  | object sort v g | pair v g =>
      cases v with
      | none => exact .refused rfl rfl
      | some v =>
          cases g with
          | none => exact .refused rfl rfl
          | some g => exact .adapted rfl rfl (split_tandem (h.1 v rfl) (h.2 g rfl))

variable {v : Solver α κ}

omit [Scalar α] in
theorem closed_serving {p : Problem α (World α κ)} {f' : Objective α (World α κ)} (saved : Option Log.Saved)
    (st : State α κ p.n) : v.closed (p.serving f') saved st = v.closed p saved st := by
  obtain ⟨phase, progress, w⟩ := st
  cases phase <;> rfl

/-- A run only sees what its client does while the solver runs. -/
theorem solve_busy {p : Problem α (World α κ)} {f' : Objective α (World α κ)} (hf : p.objective.Tandem (Busy v.id) f')
    (hc : ∀ r {w}, w.isRunning v.id = true → (Callback.shown v.callback r w).2.isRunning v.id = true) (w : World α κ) :
    v.solve (p.serving f') w = v.solve p w := by
  have htandem : Run.Tandem (Busy v.id) (v.toSetup p) f' :=
    { debug := fun hw => by rw [hw.1]
      emit := fun needed level e _ w w' hw => by
        obtain ⟨rfl, hw⟩ := hw
        exact ⟨rfl, (World.isRunning_emit _ _ _ _ _).trans hw⟩
      objective := hf }
  have hcallback : Callback.Tandem (Busy v.id) v.callback v.callback := by
    rintro r _ w ⟨rfl, hw⟩
    exact ⟨rfl, rfl, hc r hw⟩
  have hrun := Run.after_together htandem hcallback ⟨rfl, w.isRunning_enter p.options.verbosity⟩
    (.renew v.memory p.n p.options.depth) (Run.fuel p.options.iterations.rounds)
  have hfinal : v.final (p.serving f') w = v.final p w := by
    rw [final_eq_trace, final_eq_trace]
    exact hrun.eq hrun.world.1
  rw [solve_eq, solve_eq, hfinal]
  exact closed_serving _ _

/-- A client that asks a running solver for more, and goes on when it is refused, gets what it gets without. -/
theorem minimize_nesting (hu : u.id = v.id) {offer : Offer α (World α κ)} (h : offer.Keeps v.id)
    (hc : ∀ r {w}, w.isRunning v.id = true → (Callback.shown v.callback r w).2.isRunning v.id = true) (start : Start α)
    (options : Except (Fault α) (Options α)) (w : World α κ) :
    v.minimize (u.nestingOffer before after offer) start options w = v.minimize offer start options w := by
  cases hrun : w.isRunning v.id with
  | true => rw [minimize_of_running hrun, minimize_of_running hrun]
  | false =>
      rw [← hu] at h
      have hoffer : offer.Tandem (Busy u.id) (u.nestingOffer before after offer) := nestingOffer_tandem h
      rcases prepare_tandem hoffer options start with ⟨why, hp, hp'⟩ | ⟨p, f', hp, hp', hf⟩
      · rw [minimize, minimize, hp, hp']
      · rw [minimize_of_prepare hrun hp, minimize_of_prepare hrun hp']
        rw [hu] at hf
        exact solve_busy hf hc w

end Solver

end BoxBfgs
