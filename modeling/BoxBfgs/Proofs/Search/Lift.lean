import BoxBfgs.Evaluator

namespace BoxBfgs

/-- A way to move values that no difference of two values can tell. -/
structure Lift (α : Type) [Scalar α] where
  value : α → α
  sub_value (a b : α) : value a - value b = a - b
  value_add (a b : α) : value a + b = value (a + b)
  value_sub (a b : α) : value a - b = value (a - b)
  value_lt (a b : α) : value a < value b ↔ a < b
  value_le (a b : α) : value a ≤ value b ↔ a ≤ b
  isFinite_value (a : α) : Scalar.isFinite (value a) = Scalar.isFinite a

attribute [simp] Lift.sub_value Lift.value_lt Lift.value_le Lift.isFinite_value

namespace Lift

variable {α : Type} [Scalar α]

/-- Values that stay where they are. -/
def still (α : Type) [Scalar α] : Lift α where
  value := id
  sub_value _ _ := rfl
  value_add _ _ := rfl
  value_sub _ _ := rfl
  value_lt _ _ := .rfl
  value_le _ _ := .rfl
  isFinite_value _ := rfl

variable (l : Lift α)

def sample (t : Sample α) : Sample α := { t with value := l.value t.value }

def bracket (b : Bracket α) : Bracket α := { b with best := l.sample b.best, other := l.sample b.other }

def wolfe (s : Wolfe α) : Wolfe α := { s with value := l.value s.value, bracket := l.bracket s.bracket }

section

variable {P P' : Type} (f : P → P')

def attempt : Attempt α P → Attempt α P'
  | .answered p v g => .answered (f p) (l.value v) g
  | .failed why => .failed why
  | .refused limit => .refused limit
  | .escaped why => .escaped why

def kept (k : Kept α P) : Kept α P' := { step := k.step, point := f k.point, value := l.value k.value }

end

end Lift

/-- What was found at a point, seen at another one. -/
def Found.map {α P P' : Type} (f : P → P') (found : Found α P) : Found α P' :=
  { step := found.step, point := found.point.map f, evaluations := found.evaluations, outcome := found.outcome,
    fault := found.fault }

namespace Bracket

variable {α : Type} [Scalar α] (l : Lift α) (b : Bracket α) (t : Sample α) (low high : α)

theorem slopes_lift (x : Sample α) : slopes (l.sample x) (l.sample t) = slopes x t := by
  simp [slopes, Lift.sample]

theorem stepHigher_lift : (l.bracket b).stepHigher (l.sample t) = b.stepHigher t := by
  simp only [stepHigher, Lift.bracket, slopes_lift]
  simp only [Lift.sample, Lift.sub_value]
  rfl

theorem stepOpposed_lift : (l.bracket b).stepOpposed (l.sample t) = b.stepOpposed t := by
  simp only [stepOpposed, Lift.bracket, slopes_lift]
  rfl

theorem stepFlatter_lift : (l.bracket b).stepFlatter (l.sample t) low high = b.stepFlatter t low high := by
  simp only [stepFlatter, Lift.bracket, slopes_lift]
  rfl

theorem stepSteeper_lift : (l.bracket b).stepSteeper (l.sample t) low high = b.stepSteeper t low high := by
  simp only [stepSteeper, Lift.bracket, Lift.sample, Lift.sub_value]
  rfl

/-- A bracket is made smaller at the same steps, however high the function lies. -/
theorem update_lift : (l.bracket b).update (l.sample t) low high =
    (b.update t low high).map fun r => (l.bracket r.1, r.2) := by
  have hhigher : (l.sample t).value > (l.bracket b).best.value ↔ t.value > b.best.value := l.value_lt _ _
  have hopposed : opposed (l.bracket b).best (l.sample t) = opposed b.best t := rfl
  have hslope : Scalar.abs (l.sample t).slope < Scalar.abs (l.bracket b).best.slope ↔
      Scalar.abs t.slope < Scalar.abs b.best.slope := Iff.rfl
  simp only [update, hhigher, hopposed, hslope, stepHigher_lift, stepOpposed_lift, stepFlatter_lift, stepSteeper_lift]
  split
  · cases b.stepHigher t <;> rfl
  · split
    · cases b.stepOpposed t <;> rfl
    · split
      · cases b.stepFlatter t low high <;> rfl
      · cases b.stepSteeper t low high <;> rfl

end Bracket

namespace Wolfe

variable {α : Type} [Scalar α] (l : Lift α) (s : Wolfe α)

theorem line_lift (t : α) : (l.wolfe s).line t = l.value (s.line t) := l.value_add _ _

theorem outcome?_lift (value slope : α) : (l.wolfe s).outcome? (l.value value) slope = s.outcome? value slope := by
  simp only [outcome?, line_lift, gt_iff_lt, Lift.value_lt, Lift.value_le]
  rfl

theorem tilt_lift (a : Sample α) : (l.wolfe s).tilt (l.sample a) = l.sample (s.tilt a) :=
  congrArg (fun v => (⟨a.step, v, a.slope - s.slopeTest⟩ : Sample α)) (l.value_sub _ _)

theorem untilt_lift (a : Sample α) : (l.wolfe s).untilt (l.sample a) = l.sample (s.untilt a) :=
  congrArg (fun v => (⟨a.step, v, a.slope + s.slopeTest⟩ : Sample α)) (l.value_add _ _)

theorem narrowed_lift (t : Sample α) :
    (l.wolfe s).narrowed (l.sample t) = (s.narrowed t).map fun r => (l.bracket r.1, r.2) := by
  have htilted : ((l.wolfe s).tilted && (l.wolfe s).bracket.best.value ≥ (l.sample t).value &&
      (l.sample t).value > (l.wolfe s).line (l.wolfe s).step) =
      (s.tilted && s.bracket.best.value ≥ t.value && t.value > s.line s.step) := by
    have hbest : (l.wolfe s).bracket.best.value ≥ (l.sample t).value ↔ s.bracket.best.value ≥ t.value := l.value_le _ _
    have hline : (l.sample t).value > (l.wolfe s).line (l.wolfe s).step ↔ t.value > s.line s.step := by
      rw [line_lift]
      exact l.value_lt _ _
    simp only [hbest, hline]
    rfl
  simp only [narrowed, htilted]
  split
  · have hupdate := Bracket.update_lift l
      { s.bracket with best := s.tilt s.bracket.best, other := s.tilt s.bracket.other } (s.tilt t) s.low s.high
    simp only [Lift.bracket, ← tilt_lift] at hupdate
    simp only [Lift.wolfe, Lift.bracket] at hupdate ⊢
    rw [hupdate]
    cases Bracket.update _ (s.tilt t) s.low s.high with
    | error why => rfl
    | ok r =>
        have huntilt := untilt_lift l s
        simp only [Lift.wolfe, Lift.bracket] at huntilt
        simp only [Except.map, huntilt]
  · exact Bracket.update_lift l s.bracket t s.low s.high

theorem moved_lift (b : Bracket α) (step : α) : (l.wolfe s).moved (l.bracket b) step = l.wolfe (s.moved b step) := by
  have hclosed : (l.bracket b).closed = b.closed := rfl
  simp only [moved, hclosed]
  split <;> rfl

/-- A search takes the same turn at the same step, however high the function lies. -/
theorem update_lift (value slope : α) :
    (l.wolfe s).update (l.value value) slope = ((s.update value slope).1, l.wolfe (s.update value slope).2) := by
  have hsettled : ((l.wolfe s).tilted && l.value value ≤ (l.wolfe s).line (l.wolfe s).step && slope ≥ 0) =
      (s.tilted && value ≤ s.line s.step && slope ≥ 0) := by
    simp only [line_lift, Lift.value_le]
    rfl
  have hstart : (if (l.wolfe s).tilted && l.value value ≤ (l.wolfe s).line (l.wolfe s).step && slope ≥ 0 then
      { l.wolfe s with tilted := false } else l.wolfe s) =
      l.wolfe (if s.tilted && value ≤ s.line s.step && slope ≥ 0 then { s with tilted := false } else s) := by
    rw [hsettled]
    split <;> rfl
  simp only [update]
  rw [hstart]
  generalize (if s.tilted && value ≤ s.line s.step && slope ≥ 0 then { s with tilted := false } else s) = s
  rw [outcome?_lift]
  cases s.outcome? value slope with
  | some o => rfl
  | none =>
      have hnarrowed := narrowed_lift l s ⟨s.step, value, slope⟩
      have hsample : (⟨(l.wolfe s).step, l.value value, slope⟩ : Sample α) = l.sample ⟨s.step, value, slope⟩ := rfl
      dsimp only
      rw [hsample, hnarrowed]
      cases s.narrowed ⟨s.step, value, slope⟩ with
      | error why => rfl
      | ok r => exact Prod.ext rfl (moved_lift l s _ _)

end Wolfe

namespace Line

variable {α P P' τ σ : Type} [Scalar α] (l : Lift α) (f : P → P')

theorem finish_lift (kept : Option (Kept α P)) (evaluations : Nat) (outcome : Outcome) (fault : Option (Fault α)) :
    finish (kept.map (l.kept f)) evaluations outcome fault = (finish kept evaluations outcome fault).map f := by
  cases kept <;> rfl

theorem keep_lift (s : Wolfe α) (kept : Option (Kept α P)) (step : α) (point : P) (value : α) :
    keep (l.wolfe s) (kept.map (l.kept f)) step (f point) (l.value value) =
      (keep s kept step point value).map (l.kept f) := by
  have hlower : l.value value < (l.wolfe s).value ↔ value < s.value := l.value_lt _ _
  have henough : (l.wolfe s).sufficientDecrease step (l.value value) = s.sufficientDecrease step value := by
    simp only [Wolfe.sufficientDecrease, Wolfe.line_lift, Lift.value_le]
  cases kept with
  | none =>
      simp only [keep, hlower, henough, Option.map_none]
      split <;> rfl
  | some k =>
      have hbetter : l.value value ≤ (l.kept f k).value ↔ value ≤ k.value := l.value_le _ _
      simp only [keep, hlower, henough, Option.map_some, hbetter]
      split <;> rfl

variable {evaluate : α → τ → Attempt α P × τ} {evaluate' : α → σ → Attempt α P' × σ} {R : τ → σ → Prop}

/-- Searches whose trials keep up with each other keep up as a whole. -/
theorem loop_lift (hev : ∀ t w w', R w w' →
      (evaluate' t w').1 = l.attempt f (evaluate t w).1 ∧ R (evaluate t w).2 (evaluate' t w').2)
    (cap : Cap) (fuel : Nat) (s : Wolfe α) (kept : Option (Kept α P)) (count : Nat) {w : τ} {w' : σ} (hw : R w w') :
    (loop evaluate' cap fuel (l.wolfe s) (kept.map (l.kept f)) count w').1 =
        (loop evaluate cap fuel s kept count w).1.map (Found.map f) ∧
      R (loop evaluate cap fuel s kept count w).2
        (loop evaluate' cap fuel (l.wolfe s) (kept.map (l.kept f)) count w').2 := by
  induction fuel generalizing s kept count w w' with
  | zero => exact ⟨congrArg Except.ok (finish_lift l f _ _ _ _), hw⟩
  | succ fuel ih =>
      obtain ⟨hattempt, hworld⟩ := hev s.step w w' hw
      have hstep : (l.wolfe s).step = s.step := rfl
      rw [loop, loop, hstep]
      cases he : evaluate s.step w with
      | mk a v =>
          cases he' : evaluate' s.step w' with
          | mk a' v' =>
              rw [he, he'] at hattempt hworld
              dsimp only at hattempt hworld
              subst hattempt
              cases a with
              | failed why =>
                  refine ⟨?_, hworld⟩
                  simp only [Lift.attempt, finish_lift]
                  rfl
              | refused limit => exact ⟨congrArg Except.ok (finish_lift l f _ _ _ _), hworld⟩
              | escaped why => exact ⟨rfl, hworld⟩
              | answered p v g =>
                  simp only [Lift.attempt, Wolfe.update_lift, keep_lift, finish_lift]
                  rcases s.update v g with ⟨_ | (_ | outcome), s'⟩
                  · exact ⟨rfl, hworld⟩
                  · dsimp only
                    split
                    · exact ⟨rfl, hworld⟩
                    · exact ih _ _ _ hworld
                  · cases outcome <;> exact ⟨rfl, hworld⟩

theorem search_lift (hev : ∀ t w w', R w w' →
      (evaluate' t w').1 = l.attempt f (evaluate t w).1 ∧ R (evaluate t w).2 (evaluate' t w').2)
    (o : LineOptions α) (value slope step longest : α) {w : τ} {w' : σ} (hw : R w w') :
    (search evaluate' o (l.value value) slope step longest w').1 =
        (search evaluate o value slope step longest w).1.map (Found.map f) ∧
      R (search evaluate o value slope step longest w).2
        (search evaluate' o (l.value value) slope step longest w').2 := by
  have hstart : Wolfe.start (l.value value) slope (Scalar.least step longest) longest o.c1 o.c2 o.tolerance 0 =
      (Wolfe.start value slope (Scalar.least step longest) longest o.c1 o.c2 o.tolerance 0).map l.wolfe := by
    simp only [Wolfe.start]
    split
    · rfl
    · split
      · rfl
      · split <;> rfl
  rw [search, search, hstart]
  cases Wolfe.start value slope (Scalar.least step longest) longest o.c1 o.c2 o.tolerance 0 with
  | error why => exact ⟨rfl, hw⟩
  | ok s => exact loop_lift l f hev o.evaluations _ s none 0 hw

end Line

end BoxBfgs
