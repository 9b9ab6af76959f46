import BoxBfgs.Proofs.Run.Abreast

namespace BoxBfgs

/-- What a client does with an iterate that is shown. -/
abbrev Listener (α κ : Type) := Record α → κ → Except (Fault α) Unit × κ

/-- A client beside whom somebody writes down the iterates that are shown, in their order. -/
abbrev Heard (α κ : Type) := κ × List (Record α)

section

variable {α κ β : Type}

/-- A function of a client, who sees nothing of what the solvers share. -/
def Callable.heard (f : Callable α κ β) : Callable α (World α (Heard α κ)) β := fun x w =>
  let (r, c) := f x w.client.1
  (r, { w with client := (c, w.client.2) })

def Listener.heard (f : Listener α κ) : Callback α (Heard α κ) := fun r w =>
  let (a, c) := f r w.client.1
  (a, { w with client := (c, w.client.2 ++ [r]) })

def Objective.heard : Objective α κ → Objective α (World α (Heard α κ))
  | .combined f => .combined f.heard
  | .split v g => .split v.heard g.heard
  | .custom name f => .custom name f.heard

def Offer.heard : Offer α κ → Offer α (World α (Heard α κ))
  | .objective name f => .objective name f.heard
  | .object sort v g => .object sort (v.map Callable.heard) (g.map Callable.heard)
  | .pair v g => .pair (v.map Callable.heard) (g.map Callable.heard)
  | .function f => .function f.heard
  | .other sort => .other sort

def Solver.heard (v : Solver α κ) (f : Option (Listener α κ)) : Solver α (Heard α κ) :=
  { id := v.id, options := v.options, iterations := v.iterations, evaluations := v.evaluations, history := v.history,
    memory := v.memory, callback := f.map Listener.heard }

namespace World

/-- A world in which nothing was shown yet. -/
def heard (w : World α κ) : World α (Heard α κ) := { session := w.session, client := (w.client, []) }

def records (w : World α (Heard α κ)) : List (Record α) := w.client.2

theorem records_of_client {w w' : World α (Heard α κ)} (h : w'.client = w.client) : w'.records = w.records :=
  congrArg Prod.snd h

/-- The same world with the checks switched on or off. -/
def checks (w : World α κ) (debug : Bool) : World α κ := { w with session := { w.session with debug } }

end World

theorem Objective.call_heard (o : Objective α κ) (x : Tensor α) (w : World α (Heard α κ)) :
    o.heard.call x w = ((o.call x w.client.1).1, { w with client := ((o.call x w.client.1).2, w.client.2) }) := by
  cases o with
  | combined | custom => rfl
  | split v g =>
      simp only [heard, call, Callable.heard]
      rcases v x w.client.1 with ⟨_ | _ | _ | _, c⟩ <;> rfl

theorem Offer.adapt_heard (offer : Offer α κ) : offer.heard.adapt = offer.adapt.map Objective.heard := by
  cases offer with
  | objective | function | other => rfl
  | object sort v g | pair v g => cases v <;> cases g <;> rfl

end

theorem Solver.prepare_heard {α κ : Type} [Scalar α] {o : Options α} {offer : Offer α κ} {start : Start α}
    {p : Problem α (World α (Heard α κ))} (h : prepare (.ok o) offer.heard start = .ok p) :
    ∃ g : Objective α κ, p.objective = g.heard := by
  obtain ⟨-, hadapt⟩ := prepare_options h
  rw [Offer.adapt_heard] at hadapt
  obtain ⟨g, -, hg⟩ := map_eq_ok hadapt
  exact ⟨g, hg.symm⟩

/-- A run of what a client offers depends on what the solvers share neither in its log nor in its checks, and on the
options only in those of the search and in the evaluations. -/
theorem Run.moves_still {α κ : Type} [Scalar α] {n : Nat} {s : Setup α (Heard α κ) n} {g : Objective α κ}
    {f : Option (Listener α κ)} (hg : s.objective = g.heard) (hf : s.callback = f.map Listener.heard) {o : Options α}
    (hline : o.line = s.options.line) (hevaluations : o.evaluations = s.options.evaluations) (d d' : Bool) :
    Moves (.still α n) Eq d d' s { s with options := o } where
  call x w w' hw := by
    have hstill : ∀ r : Reply α (α × Tensor α), r.map (fun a => ((Motion.still α n).value a.1, a.2)) = r := by
      rintro (_ | _ | _ | _) <;> rfl
    have hx : (Motion.still α n).point x = x := rfl
    obtain ⟨hclient, hd, hd'⟩ := hw
    simp only [hg, Objective.call_heard, hstill, hx, ← hclient, true_and]
    exact ⟨rfl, hd, hd'⟩
  callback := by
    dsimp only
    rw [hf]
    cases f with
    | none => exact .none
    | some f =>
        refine .some fun r w w' hw => ?_
        obtain ⟨hclient, hd, hd'⟩ := hw
        have hr : (Motion.still α n).record r = r := rfl
        simp only [Listener.heard, hr, ← hclient, true_and]
        exact ⟨rfl, hd, hd'⟩
  start := rfl
  line := hline
  evaluations := hevaluations
  unconstrained := rfl
  boxed := rfl
  norm _ _ := rfl
  trial _ _ _ := rfl
  longest _ _ := rfl
  cauchy m x g := by
    have hpoint : (Motion.still α n).point x = x := rfl
    rw [hpoint]
    cases Cauchy.point s.bounds.toBox m x g <;> rfl
  subspace m x g c := by
    have hpoint : (Motion.still α n).point x = x := rfl
    have hc : (Motion.still α n).cauchy c = c := rfl
    rw [hpoint, hc]
    cases Subspace.minimize s.bounds.toBox m x g c <;> rfl

end BoxBfgs
