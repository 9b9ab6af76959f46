import BoxBfgs.Proofs.Search.Sound
import BoxBfgs.Proofs.Search.Trials

namespace BoxBfgs

namespace Wolfe

variable {s s' : Wolfe ℝ} {v g : ℝ}

theorem line_of_outcome (h : s.outcome? v g = some .converged) : v ≤ s.line s.step ∧ |g| ≤ s.c2 * -s.slope := by
  by_contra hc
  have hneg : ¬(decide (v ≤ s.line s.step) && decide (|g| ≤ s.c2 * -s.slope)) = true := by simpa using hc
  simp only [outcome?, Scalar.abs_real] at h
  rw [if_neg hneg] at h
  split_ifs at h <;> cases h

theorem line_of_converged (h : s.update v g = (.ok (some .converged), s')) :
    v ≤ s.line s.step ∧ |g| ≤ s.c2 * -s.slope := by
  have hsame := switched_sameLine s v g
  rw [update_eq] at h
  split at h
  · rename_i o ho
    cases h
    have hend := line_of_outcome ho
    rwa [switched_step, hsame.line, hsame.c2, hsame.slope] at hend
  · split at h
    · cases h
    · cases h

theorem converged_of_line (hline : v ≤ s.line s.step) (hflat : |g| ≤ s.c2 * -s.slope) :
    s.update v g = (.ok (some .converged), s.switched v g) := by
  have hsame := switched_sameLine s v g
  have ho : (s.switched v g).outcome? v g = some .converged := by
    rw [outcome?, switched_step, hsame.line, hsame.c2, hsame.slope, Scalar.abs_real]
    simp only [hline, hflat, decide_true, Bool.and_self, if_true]
  rw [update_eq, ho]

theorem Sound.line_lt (h : s.Sound) {t : ℝ} (ht : 0 < t) : s.line t < s.value :=
  add_lt_of_neg_right _ (mul_neg_of_pos_of_neg ht h.slopeTest_neg)

end Wolfe

namespace Line

variable {P τ : Type} {R : ℝ → P → ℝ → Prop} {s s' : Wolfe ℝ} {t v : ℝ} {p : P} {kept : Option (Kept ℝ P)}

/-- A trial that was made at a step that was allowed, and that has sufficient decrease. -/
structure Lowered (R : ℝ → P → ℝ → Prop) (s : Wolfe ℝ) (t : ℝ) (p : P) (v : ℝ) : Prop where
  seen : R t p v
  pos : 0 < t
  le : t ≤ s.greatest
  line : v ≤ s.line t

def Keeps (R : ℝ → P → ℝ → Prop) (s : Wolfe ℝ) (kept : Option (Kept ℝ P)) : Prop :=
  ∀ k, kept = some k → Lowered R s k.step k.point k.value

theorem Lowered.of_sameLine (h : Lowered R s t p v) (hs : s.SameLine s') : Lowered R s' t p v where
  seen := h.seen
  pos := h.pos
  le := hs.greatest ▸ h.le
  line := hs.line ▸ h.line

theorem Lowered.lt (h : Lowered R s t p v) (hs : s.Sound) : v < s.value := h.line.trans_lt (hs.line_lt h.pos)

theorem keep_keeps (hs : s.Sound) (hseen : R s.step p v) (hk : Keeps R s kept) :
    Keeps R s (keep s kept s.step p v) := by
  intro k hkeep
  simp only [keep] at hkeep
  split_ifs at hkeep with hc
  · cases hkeep
    simp only [Bool.and_eq_true, Wolfe.sufficientDecrease, decide_eq_true_eq] at hc
    exact ⟨hseen, hs.step_pos, hs.step_le, hc.1.2⟩
  · exact hk k hkeep

theorem finish_point {count : Nat} {outcome : Outcome} {fault : Option (Fault ℝ)}
    (h : (finish kept count outcome fault).point = some p) :
    ∃ k, kept = some k ∧ k.point = p ∧ (finish kept count outcome fault).step = k.step := by
  cases kept with
  | none => cases h
  | some k =>
      cases h
      exact ⟨k, rfl, rfl, rfl⟩

variable {evaluate : ℝ → τ → Attempt ℝ P × τ} {found : Found ℝ P}

theorem finish_lowered {count : Nat} {outcome : Outcome} {fault : Option (Fault ℝ)} (hk : Keeps R s kept)
    (h : (finish kept count outcome fault).point = some p) :
    ∃ v, Lowered R s (finish kept count outcome fault).step p v := by
  obtain ⟨k, hkept, rfl, hstep⟩ := finish_point h
  exact ⟨k.value, hstep ▸ hk k hkept⟩

theorem loop_lowered (hev : ∀ t w p v g w', evaluate t w = (.answered p v g, w') → R t p v) (cap : Cap)
    (fuel : Nat) (hs : s.Sound) (hk : Keeps R s kept) {count : Nat} {w w' : τ}
    (h : loop evaluate cap fuel s kept count w = (.ok found, w')) (hp : found.point = some p) :
    ∃ v, Lowered R s found.step p v := by
  induction fuel generalizing s kept count w with
  | zero =>
      cases h
      exact finish_lowered hk hp
  | succ fuel ih =>
      rw [loop] at h
      split at h
      · cases h
        cases hp
      · cases h
        exact finish_lowered hk hp
      · cases h
      · rename_i q value slope w1 hq
        have hseen := hev _ _ _ _ _ _ hq
        have hkeep := keep_keeps hs hseen hk
        split at h
        · cases h
        · rename_i s1 hu
          cases h
          cases hp
          exact ⟨value, hseen, hs.step_pos, hs.step_le, (Wolfe.line_of_converged hu).1⟩
        · cases h
          exact finish_lowered hkeep hp
        · rename_i s1 hu
          split_ifs at h
          · cases h
            exact finish_lowered hkeep hp
          · obtain ⟨hs1, hsame, -⟩ := hs.update_sound hu
            obtain ⟨v, hv⟩ := ih hs1 (fun k hk => (hkeep k hk).of_sameLine hsame) h
            exact ⟨v, hv.of_sameLine hsame.symm⟩

/-- A search that is content with a trial finds the point of that trial and has nothing else to report. -/
theorem loop_converged (cap : Cap) (fuel : Nat) (hs : s.Sound) {count : Nat} {w w' : τ}
    (h : loop evaluate cap fuel s kept count w = (.ok found, w')) (ho : found.outcome = .converged) :
    ∃ p v g w1, evaluate found.step w1 = (.answered p v g, w') ∧ found.point = some p ∧ found.fault = none ∧
      |g| ≤ s.c2 * -s.slope := by
  induction fuel generalizing s kept count w with
  | zero =>
      cases h
      cases Ends.finish_outcome.symm.trans ho
  | succ fuel ih =>
      rw [loop] at h
      split at h
      · cases h
        cases Ends.finish_outcome.symm.trans ho
      · cases h
        cases Ends.finish_outcome.symm.trans ho
      · cases h
      · rename_i q value slope w1 hq
        split at h
        · cases h
        · rename_i s1 hu
          cases h
          exact ⟨q, value, slope, _, hq, rfl, rfl, (Wolfe.line_of_converged hu).2⟩
        · rename_i outcome s1 hne hu
          cases h
          exact absurd (Ends.finish_outcome.symm.trans ho) hne
        · rename_i s1 hu
          split_ifs at h
          · cases h
            cases Ends.finish_outcome.symm.trans ho
          · obtain ⟨hs1, hsame, -⟩ := hs.update_sound hu
            rw [← hsame.c2, ← hsame.slope]
            exact ih hs1 h

section

variable {o : LineOptions ℝ} (hc1 : 0 < o.c1) (hc : o.c1 < o.c2) (hc2 : o.c2 < 1) (htol : o.tolerance < 1)
  {value slope step longest : ℝ} (hslope : slope < 0) (hstep : 0 < step) (hlong : 0 < longest) {w w' : τ}

include hc1 hc hc2 htol hslope hstep hlong

theorem search_eq_loop (evaluate : ℝ → τ → Attempt ℝ P × τ) (value : ℝ) (w : τ) :
    ∃ s : Wolfe ℝ, s.Sound ∧ s.value = value ∧ s.slope = slope ∧ s.greatest = longest ∧ s.c2 = o.c2 ∧
      search evaluate o value slope step longest w =
        loop evaluate o.evaluations (max 1 o.evaluations.rounds) s none 0 w := by
  have hpos : 0 < min step longest := lt_min hstep hlong
  have hle : min step longest ≤ longest := min_le_right _ _
  have hstart : Wolfe.start value slope (min step longest) longest o.c1 o.c2 o.tolerance 0 = .ok _ :=
    Wolfe.start_eq_ok hc1 hc hc2 hslope hpos.le hle
  refine ⟨_, Wolfe.start_sound hc1 hc hc2 htol hslope hpos hle hstart, rfl, rfl, rfl, rfl, ?_⟩
  rw [search, Scalar.least_real, hstart]

/-- Whatever the trials answer, a search down a line that finds a point finds one below its start. -/
theorem search_descends (hev : ∀ t w p v g w', evaluate t w = (.answered p v g, w') → R t p v)
    (h : search evaluate o value slope step longest w = (.ok found, w')) (hp : found.point = some p) :
    ∃ v, R found.step p v ∧ 0 < found.step ∧ found.step ≤ longest ∧ v < value := by
  obtain ⟨s, hs, hvalue, -, hgreatest, -, hloop⟩ :=
    search_eq_loop hc1 hc hc2 htol hslope hstep hlong evaluate value w
  rw [hloop] at h
  obtain ⟨v, hv⟩ := loop_lowered hev _ _ hs (fun k hk => by cases hk) h hp
  exact ⟨v, hv.seen, hv.pos, hgreatest ▸ hv.le, hvalue ▸ hv.lt hs⟩

/-- A search that converges ends at its last trial, where the slope is no more than the flatness asked for. -/
theorem search_converged (h : search evaluate o value slope step longest w = (.ok found, w'))
    (ho : found.outcome = .converged) : ∃ p v g w1, evaluate found.step w1 = (.answered p v g, w') ∧
      found.point = some p ∧ found.fault = none ∧ |g| ≤ o.c2 * -slope := by
  obtain ⟨s, hs, -, hsame, -, hflat, hloop⟩ := search_eq_loop hc1 hc hc2 htol hslope hstep hlong evaluate value w
  rw [hloop] at h
  rw [← hflat, ← hsame]
  exact loop_converged _ _ hs h ho

end

/-- A first trial that meets both conditions is what the search finds. -/
theorem search_of_first {evaluate : ℝ → τ → Attempt ℝ P × τ} {o : LineOptions ℝ} (hc1 : 0 < o.c1) (hc : o.c1 < o.c2)
    (hc2 : o.c2 < 1) {value slope step longest : ℝ} (hslope : slope < 0) (hstep : 0 ≤ step) (hle : step ≤ longest)
    {w w' : τ} {g : ℝ} (h : evaluate step w = (.answered p v g, w')) (hline : v ≤ value + step * (o.c1 * slope))
    (hflat : |g| ≤ o.c2 * -slope) : search evaluate o value slope step longest w =
      (.ok { step, point := some p, evaluations := 1, outcome := .converged }, w') := by
  obtain ⟨fuel, hfuel⟩ : ∃ fuel, max 1 o.evaluations.rounds = fuel + 1 :=
    ⟨max 1 o.evaluations.rounds - 1, by omega⟩
  rw [search, Scalar.least_real, min_eq_left hle, Wolfe.start_eq_ok hc1 hc hc2 hslope hstep hle, hfuel]
  dsimp only
  rw [loop]
  dsimp only
  rw [h]
  dsimp only
  rw [Wolfe.converged_of_line hline hflat]

end Line

end BoxBfgs
