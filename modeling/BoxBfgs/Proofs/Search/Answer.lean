import BoxBfgs.Proofs.Search.Safety
import BoxBfgs.Proofs.Search.Visits

namespace BoxBfgs.Line

variable {P τ : Type} {s s' : Wolfe ℝ} {line : ℝ → ℝ} {trials : List (Kept ℝ P)} {kept : Option (Kept ℝ P)} {p : P}
  {v g : ℝ} {calls : List (ℝ × Attempt ℝ P)} {found : Found ℝ P}

/-- An evaluation that writes down its calls: the steps it is asked for, each with what comes back. -/
def recorded (evaluate : ℝ → τ → Attempt ℝ P × τ) (t : ℝ) (w : τ × List (ℝ × Attempt ℝ P)) :
    Attempt ℝ P × (τ × List (ℝ × Attempt ℝ P)) :=
  ((evaluate t w.1).1, ((evaluate t w.1).2, w.2 ++ [(t, (evaluate t w.1).1)]))

/-- The calls that had an answer. -/
def answered (calls : List (ℝ × Attempt ℝ P)) : List (Kept ℝ P) :=
  calls.filterMap fun c => match c.2 with
    | .answered p v _ => some ⟨c.1, p, v⟩
    | _ => none

theorem answered_append (t : ℝ) (p : P) (v g : ℝ) :
    answered (calls ++ [(t, .answered p v g)]) = answered calls ++ [⟨t, p, v⟩] := by
  simp [answered]

theorem answered_append_of_none {t : ℝ} {a : Attempt ℝ P} (h : ∀ p v g, a ≠ .answered p v g) :
    answered (calls ++ [(t, a)]) = answered calls := by
  cases a with
  | answered p v g => exact absurd rfl (h p v g)
  | failed | refused | escaped => simp [answered]

/-- What is to be kept of some trials: the latest of the lowest under the line, and nothing if none is under it. -/
inductive Tracks (line : ℝ → ℝ) (trials : List (Kept ℝ P)) : Option (Kept ℝ P) → Prop
  | nothing (h : ∀ t ∈ trials, line t.step < t.value) : Tracks line trials none
  | trial {k : Kept ℝ P} (h : Lowest line trials k) : Tracks line trials (some k)

/-- A trial is judged on its own, whatever the search makes of it afterwards. -/
theorem Tracks.keep (hs : s.Sound) (h : Tracks s.line trials kept) :
    Tracks s.line (trials ++ [⟨s.step, p, v⟩]) (keep s kept s.step p v) := by
  by_cases hline : v ≤ s.line s.step
  · have hlt : v < s.value := hline.trans_lt (hs.line_lt hs.step_pos)
    cases h with
    | nothing hnone =>
        have hkeep : Line.keep s none s.step p v = some ⟨s.step, p, v⟩ := by
          simp [Line.keep, Wolfe.sufficientDecrease, hline, hlt]
        rw [hkeep]
        exact .trial (.append_last hline fun u hu hunder => absurd (hnone u hu) hunder.not_gt)
    | @trial k hlow =>
        by_cases hle : v ≤ k.value
        · have hkeep : Line.keep s (some k) s.step p v = some ⟨s.step, p, v⟩ := by
            simp [Line.keep, Wolfe.sufficientDecrease, hline, hlt, hle]
          rw [hkeep]
          exact .trial (.append_last hline fun u hu hunder => hle.trans (hlow.le hu hunder))
        · have hkeep : Line.keep s (some k) s.step p v = some k := by
            simp [Line.keep, hle]
          rw [hkeep]
          exact .trial (hlow.append_higher fun _ => not_le.mp hle)
  · have hkeep : Line.keep s kept s.step p v = kept := by
      simp [Line.keep, Wolfe.sufficientDecrease, hline]
    rw [hkeep]
    cases h with
    | nothing hnone =>
        refine .nothing fun u hu => ?_
        rcases List.mem_append.mp hu with hu | hu
        · exact hnone u hu
        · obtain rfl := List.mem_singleton.mp hu
          exact not_le.mp hline
    | trial hlow => exact .trial (hlow.append_higher fun hunder => absurd hunder hline)

/-- What a result says of the calls that led to it. -/
structure Judged (s : Wolfe ℝ) (calls : List (ℝ × Attempt ℝ P)) (found : Found ℝ P) : Prop where
  converged : found.outcome = .converged → ∃ p v g, calls.getLast? = some (found.step, .answered p v g) ∧
    found.point = some p ∧ v ≤ s.line found.step ∧ |g| ≤ s.c2 * -s.slope ∧ v < s.value
  absent : found.outcome ≠ .converged → found.outcome ≠ .objectiveFailed →
    (found.point = none ↔ ∀ t ∈ answered calls, s.line t.step < t.value)
  lowest : found.outcome ≠ .converged → ∀ p, found.point = some p →
    ∃ k, Lowest s.line (answered calls) k ∧ k.step = found.step ∧ k.point = p
  failed : found.outcome = .objectiveFailed → found.point = none

theorem Judged.of_sameLine (h : Judged s' calls found) (hs : s.SameLine s') : Judged s calls found where
  converged ho := by
    rw [← hs.line, ← hs.c2, ← hs.slope, ← hs.value]
    exact h.converged ho
  absent ho hf := by
    rw [← hs.line]
    exact h.absent ho hf
  lowest ho := by
    rw [← hs.line]
    exact h.lowest ho
  failed := h.failed

/-- The answer of a search that ends without a step that meets both conditions. -/
theorem finish_judged (hk : Tracks s.line (answered calls) kept) {count : Nat} {o : Outcome} {fault : Option (Fault ℝ)}
    (ho : o ≠ .converged) (hf : o ≠ .objectiveFailed) : Judged s calls (finish kept count o fault) where
  converged heq := absurd (Ends.finish_outcome.symm.trans heq) ho
  absent _ _ := by
    cases hk with
    | nothing hnone => exact ⟨fun _ => hnone, fun _ => rfl⟩
    | @trial k hlow =>
        refine ⟨nofun, fun hnone => ?_⟩
        obtain ⟨before, after, hmem, -⟩ := hlow.place
        exact absurd (hnone k (hmem ▸ by simp)) hlow.under.not_gt
  lowest _ p hp := by
    obtain ⟨k, rfl, hpoint, hstep⟩ := finish_point hp
    cases hk with
    | trial hlow => exact ⟨k, hlow, hstep.symm, hpoint⟩
  failed heq := absurd (Ends.finish_outcome.symm.trans heq) hf

theorem converged_judged (hs : s.Sound) (h : s.update v g = (.ok (some .converged), s')) {count : Nat} :
    Judged s (calls ++ [(s.step, .answered p v g)])
      { step := s.step, point := some p, evaluations := count, outcome := .converged } where
  converged _ := by
    obtain ⟨hline, hflat⟩ := Wolfe.line_of_converged h
    exact ⟨p, v, g, by simp, rfl, hline, hflat, hline.trans_lt (hs.line_lt hs.step_pos)⟩
  absent ho := absurd rfl ho
  lowest ho := absurd rfl ho
  failed := nofun

/-- A loop whose trials are answered, fail or are refused comes to a result, after one call a round at most. -/
theorem loop_judged {evaluate : ℝ → τ → Attempt ℝ P × τ} (hev : ∀ t w why, (evaluate t w).1 ≠ .escaped why) (cap : Cap)
    (fuel : Nat) (hs : s.Sound) (hk : Tracks s.line (answered calls) kept) (count : Nat) (w : τ) :
    ∃ found w' calls', loop (recorded evaluate) cap fuel s kept count (w, calls) = (.ok found, (w', calls')) ∧
      calls'.length ≤ calls.length + fuel ∧ Judged s calls' found := by
  induction fuel generalizing s calls kept count w with
  | zero => exact ⟨_, _, _, rfl, le_rfl, finish_judged hk (by decide) (by decide)⟩
  | succ fuel ih =>
      have hmore {t : ℝ} {a : Attempt ℝ P} : (calls ++ [(t, a)]).length ≤ calls.length + (fuel + 1) := by
        simp
      rw [loop, recorded]
      cases he : evaluate s.step w with
      | mk a w1 =>
          dsimp only
          cases a with
          | escaped why => exact absurd (by rw [he]) (hev s.step w why)
          | failed why =>
              refine ⟨_, _, _, rfl, hmore, ?_, ?_, ?_, ?_⟩
              · exact fun heq => absurd (Ends.finish_outcome.symm.trans heq) (by decide)
              · exact fun _ hne => absurd Ends.finish_outcome hne
              · rintro - p ⟨⟩
              · exact fun _ => rfl
          | refused limit =>
              refine ⟨_, _, _, rfl, hmore, finish_judged ?_ (by decide) (by decide)⟩
              rwa [answered_append_of_none fun _ _ _ h => by cases h]
          | answered p v g =>
              have hkeep := hk.keep hs (p := p) (v := v)
              rw [← answered_append s.step p v g] at hkeep
              dsimp only
              obtain ⟨s1, o, hu⟩ : ∃ s1 o, s.update v g = (.ok o, s1) :=
                ⟨_, _, Prod.ext (hs.update_eq_ok v g).choose_spec rfl⟩
              rw [hu]
              cases o with
              | none =>
                  obtain ⟨hs1, hsame, -⟩ := hs.update_sound hu
                  dsimp only
                  split
                  · exact ⟨_, _, _, rfl, hmore, finish_judged hkeep (by decide) (by decide)⟩
                  · rw [← hsame.line] at hkeep
                    obtain ⟨found, w', calls', hloop, hlen, hjudged⟩ := ih hs1 hkeep (count + 1) w1
                    refine ⟨found, w', calls', hloop, hlen.trans_eq ?_, hjudged.of_sameLine hsame⟩
                    rw [List.length_append, List.length_singleton, Nat.add_assoc, Nat.add_comm 1]
              | some o =>
                  by_cases hc : o = .converged
                  · subst hc
                    exact ⟨_, _, _, rfl, hmore, converged_judged hs hu⟩
                  · refine ⟨finish (keep s kept s.step p v) (count + 1) o none, w1, _, ?_, hmore,
                      finish_judged hkeep hc (Wolfe.update_answered hu).1⟩
                    cases o <;> first | exact absurd rfl hc | rfl

/-- A record of the calls changes nothing else. -/
theorem search_recorded (evaluate : ℝ → τ → Attempt ℝ P × τ) (o : LineOptions ℝ) (value slope step longest : ℝ) (w : τ) :
    search evaluate o value slope step longest w =
      ((search (recorded evaluate) o value slope step longest (w, [])).1,
        (search (recorded evaluate) o value slope step longest (w, [])).2.1) :=
  search_map (f := Prod.fst) (fun _ _ => rfl) o value slope step longest (w, [])

/-- Whatever its trials answer, and whether they fail or are refused, a search down a line calls for no more trials than
it may and comes to a result. A converged one is its last trial, which meets both conditions below the start; of any
other the point is the latest of the lowest trials with sufficient decrease, and there is none only if no trial had it
or the last one failed. -/
theorem search_judged {evaluate : ℝ → τ → Attempt ℝ P × τ} (hev : ∀ t w why, (evaluate t w).1 ≠ .escaped why)
    {o : LineOptions ℝ} {most : Int} (hc1 : 0 < o.c1) (hc : o.c1 < o.c2) (hc2 : o.c2 < 1) (htol : o.tolerance < 1)
    (hcap : o.evaluations = .whole most) (hmost : 1 ≤ most) {value slope step longest : ℝ} (hslope : slope < 0)
    (hstep : 0 < step) (hlong : 0 < longest) (w : τ) :
    ∃ found w' calls, search evaluate o value slope step longest w = (.ok found, w') ∧
      search (recorded evaluate) o value slope step longest (w, []) = (.ok found, (w', calls)) ∧
      (calls.length : Int) ≤ most ∧
      (found.outcome = .converged → ∃ p v g, calls.getLast? = some (found.step, .answered p v g) ∧
        found.point = some p ∧ v ≤ value + found.step * (o.c1 * slope) ∧ |g| ≤ o.c2 * |slope| ∧ v < value) ∧
      (found.outcome ≠ .converged → found.outcome ≠ .objectiveFailed →
        (found.point = none ↔ ∀ t ∈ answered calls, value + t.step * (o.c1 * slope) < t.value) ∧
        ∀ p, found.point = some p → ∃ k, Lowest (fun t => value + t * (o.c1 * slope)) (answered calls) k ∧
          k.step = found.step ∧ k.point = p) ∧
      (found.outcome = .objectiveFailed → found.point = none) := by
  have hpos : 0 < min step longest := lt_min hstep hlong
  have hstart : Wolfe.start value slope (min step longest) longest o.c1 o.c2 o.tolerance 0 = .ok _ :=
    Wolfe.start_eq_ok hc1 hc hc2 hslope hpos.le (min_le_right step longest)
  have hs := Wolfe.start_sound hc1 hc hc2 htol hslope hpos (min_le_right step longest) hstart
  obtain ⟨found, w', calls, hloop, hlen, hjudged⟩ := loop_judged hev o.evaluations (max 1 o.evaluations.rounds) hs
    (.nothing nofun : Tracks _ (answered []) none) 0 w
  have hsearch : search (recorded evaluate) o value slope step longest (w, []) = (.ok found, (w', calls)) := by
    rw [search, Scalar.least_real, hstart]
    exact hloop
  refine ⟨found, w', calls, ?_, hsearch, ?_, ?_, ?_, hjudged.failed⟩
  · rw [search_recorded, hsearch]
  · rw [hcap, Cap.rounds, List.length_nil, Nat.zero_add] at hlen
    omega
  · rw [abs_of_neg hslope]
    exact hjudged.converged
  · exact fun ho hf => ⟨hjudged.absent ho hf, hjudged.lowest ho⟩

/-- Trials along a parabola, at its lowest point in one step. -/
noncomputable def bowl (t : ℝ) (w : Unit) : Attempt ℝ Unit × Unit := (.answered () (t * t - (t + t)) (t - 1 + (t - 1)), w)

theorem search_judged_bowl : ∃ calls, search bowl .standard 0 (-2) 1 10 () =
      (.ok { step := 1, point := some (), evaluations := 1, outcome := .converged }, ()) ∧
    search (recorded bowl) .standard 0 (-2) 1 10 ((), []) =
      (.ok { step := 1, point := some (), evaluations := 1, outcome := .converged }, ((), calls)) ∧
    (calls.length : Int) ≤ 20 ∧ ∃ v g, calls.getLast? = some (1, .answered () v g) ∧
      v ≤ 0 + 1 * (LineOptions.standard.c1 * -2) ∧ |g| ≤ LineOptions.standard.c2 * |-2| ∧ v < 0 := by
  have hc1 : (0 : ℝ) < LineOptions.standard.c1 := by norm_num [LineOptions.standard]
  have hc : (LineOptions.standard.c1 : ℝ) < LineOptions.standard.c2 := by norm_num [LineOptions.standard]
  have hc2 : LineOptions.standard.c2 < (1 : ℝ) := by norm_num [LineOptions.standard]
  have htol : LineOptions.standard.tolerance < (1 : ℝ) := by norm_num [LineOptions.standard]
  have hslope : (-2 : ℝ) < 0 := by norm_num
  have hle : (1 : ℝ) ≤ 10 := by norm_num
  have hfirst : search bowl .standard 0 (-2) 1 10 () =
      (.ok { step := 1, point := some (), evaluations := 1, outcome := .converged }, ()) := by
    refine search_of_first hc1 hc hc2 hslope zero_le_one hle rfl ?_ ?_
    · norm_num [LineOptions.standard]
    · norm_num [LineOptions.standard]
  have hev : ∀ t w why, (bowl t w).1 ≠ .escaped why := fun t w why h => by cases h
  obtain ⟨found, w', calls, hsearch, hrecorded, hlen, hconverged, -, -⟩ :=
    search_judged hev hc1 hc hc2 htol rfl (by norm_num) hslope one_pos (one_pos.trans_le hle) ()
  cases hfirst.symm.trans hsearch
  obtain ⟨p, v, g, hlast, -, hline, hflat, hlt⟩ := hconverged rfl
  exact ⟨calls, hfirst, hrecorded, hlen, v, g, hlast, hline, hflat, hlt⟩

end BoxBfgs.Line
