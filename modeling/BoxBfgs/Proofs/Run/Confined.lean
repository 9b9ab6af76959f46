import BoxBfgs.Proofs.Bounds.WellFormed
import BoxBfgs.Proofs.Run.Tally

namespace BoxBfgs

namespace Evaluator

variable {α κ : Type} [Scalar α] {n : Nat} {e : Evaluator (Vector α n) α n} {o : Objective α (World α κ)}
  {x : Vector α n} {w : World α (Watched α κ)}

theorem mem_call_calls {c : Call α} (h : c ∈ (e.call o.watched Tensor.ofVector x w).2.2.calls) :
    c ∈ w.calls ∨ c.x = .ofVector x := by
  have hcalled : Called e o.watched Tensor.ofVector x w (e.call o.watched Tensor.ofVector x w) := call_called
  generalize e.call o.watched Tensor.ofVector x w = r at hcalled h
  cases hcalled with
  | refused => exact .inl h
  | answered _ hreply | failed _ hreply =>
      dsimp only at h
      rw [(Objective.call_watched hreply).2] at h
      refine (List.mem_append.mp h).imp_right fun h => ?_
      rw [List.mem_singleton.mp h]

end Evaluator

namespace Run

variable {α κ : Type} [Scalar α] {n : Nat} {s : Setup α κ n}

theorem Askable.of_watched {x : Vector α n} (h : Askable s.watched x) : Askable s x := by
  cases h with
  | first => exact .first
  | trial x d t => exact .trial x d t

/-- A run calls its objective at its start and at trial points, and nowhere else. -/
theorem after_asks (m : Memory α n) {w : World α (Watched α κ)} (hw : w.calls = []) (k : Nat) :
    ∀ c ∈ (after s.watched m w k).world.calls, ∃ x : Vector α n, c.x = .ofVector x ∧ Askable s x := by
  let asked (calls : List (Call α)) : Prop := ∀ c ∈ calls, ∃ x : Vector α n, c.x = .ofVector x ∧ Askable s x
  refine after_invariant (P := fun st : State α (Watched α κ) n => asked st.world.calls) ?_ (fun h hst => ?_) k
  · have hcalls : (first s.watched m w).world.calls = [] := hw
    rw [hcalls]
    nofun
  · refine h.keeps_calls (J := fun _ calls => asked calls) (fun {e x w} hx hcalls c hc => ?_) hst
    rcases Evaluator.mem_call_calls hc with hc | hc
    · exact hcalls c hc
    · exact ⟨x, hc, hx.of_watched⟩

/-- Points are put back into the box wherever the kinds speak of a limit. -/
theorem Askable.admitted {s : Setup Float κ n}
    (hordered : ∀ i, (s.bounds.lower.get i).value ≤ (s.bounds.upper.get i).value)
    (hcandid : s.bounds.Candid) {x y : Vector Float n} (hstart : s.start = s.bounds.project x) (h : Askable s y) :
    s.bounds.Admits y := by
  cases h with
  | first =>
      rw [hstart]
      exact Bounds.project_admits hordered x
  | trial x d t =>
      rw [Run.trial]
      split
      · rename_i hu
        exact hcandid.admits hu _
      · exact Bounds.project_admits hordered _

end Run

namespace Solver

section

variable {α κ : Type} [Scalar α] {v : Solver α κ} {offer : Offer α (World α κ)} {start : Start α} {o : Options α}
  {p : Problem α (World α κ)} {w : World α κ}

theorem calls_asked (hp : prepare (.ok o) offer start = .ok p) :
    ∀ c ∈ v.calls offer start (.ok o) w, ∃ x : Vector α p.n, c.x = .ofVector x ∧ Run.Askable (v.toSetup p) x := by
  cases hrun : w.isRunning v.id with
  | true =>
      rw [calls_of_running hrun]
      nofun
  | false =>
      have hcalls : ((w.watched []).enter v.id p.options.verbosity).1.calls = [] := calls_enter _ _ _
      have hasked := Run.after_asks (s := v.toSetup p) (.renew v.memory p.n p.options.depth) hcalls
        (Run.fuel p.options.iterations.rounds)
      rw [calls_of_prepare hrun hp]
      exact hasked

/-- A problem has the bounds of the options, and starts in them. -/
theorem prepare_bounds {k : Nat} {b : Bounds α k} (hb : o.bounds = some ⟨k, b⟩)
    (hp : prepare (.ok o) offer start = .ok p) :
    ∃ (h : k = p.n) (x : Vector α p.n), p.bounds = h ▸ b ∧ p.start = p.bounds.project x := by
  obtain ⟨_, hk, hp⟩ := bind_eq_ok hp
  cases hk
  obtain ⟨f, -, hp⟩ := bind_eq_ok hp
  simp only [place, refuse, hb] at hp
  split at hp
  · cases hp
  · cases hp
  · split_ifs at hp with hshape hfinite hk
    · cases hp
      exact ⟨hk, _, rfl, rfl⟩

end

open Bounds

/-- Bounds that `free` or limits and tags make up are well formed, and ready ones at least have no crossed limits. Where
the kinds speak of no limit only if there is none, which well-formed bounds see to, a minimisation never calls its
objective beyond a limit. -/
theorem calls_admitted {κ : Type} {v : Solver Float κ} {offer : Offer Float (World Float κ)} {start : Start Float}
    {o : Options Float} {w : World Float κ} {n : Nat} {b : Bounds Float n} (hb : o.bounds = some ⟨n, b⟩) :
    (∀ dimension, readFree dimension = .ok ⟨n, b⟩ → b.WellFormed) ∧
    (∀ lower upper tags dimension, read lower upper tags dimension = .ok ⟨n, b⟩ → b.WellFormed) ∧
    (∀ lower upper kinds, readDirect lower upper kinds = .ok ⟨n, b⟩ →
      ∀ i, (b.lower.get i).value ≤ (b.upper.get i).value) ∧
    (b.WellFormed → b.Candid) ∧
    ((∀ i, (b.lower.get i).value ≤ (b.upper.get i).value) → b.Candid →
      ∀ c ∈ v.calls offer start (.ok o) w, ∃ x : Vector Float n, c.x = .ofVector x ∧ b.Admits x) := by
  refine ⟨fun d h => ?_, fun l u t d h => read_wellFormed h, fun l u k h => readDirect_ordered h, WellFormed.candid,
    fun hordered hcandid => ?_⟩
  · rw [readFree_eq_ok h]
    exact free_wellFormed n
  · cases hp : prepare (.ok o) offer start with
    | error why =>
        rw [calls_of_error why hp]
        nofun
    | ok p =>
        obtain ⟨rfl, x, hbounds, hstart⟩ := prepare_bounds hb hp
        intro c hc
        obtain ⟨y, hy, hask⟩ := calls_asked hp c hc
        obtain rfl : b = p.bounds := hbounds.symm
        exact ⟨y, hy, Run.Askable.admitted (s := v.toSetup p) hordered hcandid hstart hask⟩

section

/-- The numbers from one to two, with a kind that says so or with another one. -/
def interval (k : Kind) : Bounds Float 1 := { lower := #v[.fin 1.0], upper := #v[.fin 2.0], kinds := #v[k] }

def squareOfFloat : Callable Float (World Float Unit) (Float × Tensor Float) := fun x w =>
  let a := x.entries.headD 0.0
  (.answer (a * a, .ofVector #v[a + a]), w)

def intervalOptions (k : Kind) : Options Float :=
  { Options.standard with bounds := some ⟨1, interval k⟩, iterations := .whole 1 }

/-- The calls of one iteration that starts in the middle. -/
def intervalCalls (k : Kind) : List (Call Float) :=
  ({ id := 0, options := intervalOptions k } : Solver Float Unit).calls (.function squareOfFloat) (.array [1] [1.5])
    (.ok (intervalOptions k)) { session := {}, client := () }

theorem calls_admitted_interval :
    read (.list [.real 1.0]) (.list [.real 2.0]) .null .null = .ok ⟨1, interval .both⟩ ∧ (interval .both).WellFormed ∧
    intervalCalls .both ≠ [] ∧
    ∀ c ∈ intervalCalls .both, ∃ x : Vector Float 1, c.x = .ofVector x ∧ (interval .both).Admits x := by
  have hread : read (.list [.real 1.0]) (.list [.real 2.0]) .null .null = .ok ⟨1, interval .both⟩ :=
    eq_ok_of_toOption (by decide +kernel)
  obtain ⟨-, hwell, -, hcandid, hcalls⟩ := calls_admitted (o := intervalOptions .both) rfl
  have hb := hwell _ _ _ _ hread
  have hcalled : (intervalCalls .both).isEmpty = false := by decide +kernel
  exact ⟨hread, hb, by simpa using hcalled, hcalls hb.ordered (hcandid hb)⟩

/-- Ready bounds are taken whatever their kinds say, and the limits that no kind speaks of hold nobody back. -/
theorem calls_beyond :
    readDirect (.list [.real 1.0]) (.list [.real 2.0]) (.list [.whole 0]) = .ok ⟨1, interval .free⟩ ∧
    ¬(interval .free).WellFormed ∧ (interval .free).unconstrained = true ∧
    ∃ c ∈ intervalCalls .free, c.x = .ofVector #v[0.5] ∧ ¬(interval .free).Admits #v[0.5] := by
  have hread : readDirect (.list [.real 1.0]) (.list [.real 2.0]) (.list [.whole 0]) = .ok ⟨1, interval .free⟩ :=
    eq_ok_of_toOption (by decide +kernel)
  have hsecond : (intervalCalls .free)[1]?.map Call.x = some (.ofVector #v[0.5]) := by decide +kernel
  obtain ⟨c, hc, hx⟩ := Option.map_eq_some_iff.mp hsecond
  refine ⟨hread, fun h => ?_, by decide +kernel, c, List.mem_of_getElem? hc, hx, fun h => (h 0).1 ?_⟩
  · cases h.lower 0
  · exact of_decide_eq_true (by decide +kernel)

end

end Solver

end BoxBfgs
