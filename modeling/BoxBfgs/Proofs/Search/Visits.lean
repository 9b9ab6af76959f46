import BoxBfgs.Proofs.Search.Line

namespace BoxBfgs

theorem Wolfe.next_best (s : Wolfe ℝ) (t : Sample ℝ) : (s.next t).best =
    if t.value ≤ s.line t.step ∧ t.value ≤ s.bracket.best.value then t else s.bracket.best := by
  by_cases hline : t.value ≤ s.line t.step
  · by_cases hbest : t.value ≤ s.bracket.best.value
    · rw [if_pos ⟨hline, hbest⟩, next, if_neg hline.not_gt, Bracket.replace, if_neg hbest.not_gt]
      split_ifs <;> rfl
    · rw [if_neg fun h => hbest h.2, next, if_neg hline.not_gt, Bracket.replace, if_pos (not_le.mp hbest)]
  · rw [if_neg fun h => hline h.1, next, if_pos (not_le.mp hline)]

theorem Cap.lt_rounds_whole {i : Int} {k : Nat} (h : (whole i).reached k = false) : k < (whole i).rounds := by
  simp only [reached, rounds, ge_iff_le, decide_eq_false_iff_not] at h ⊢
  omega

namespace Line

variable {P τ : Type}

/-- The latest of the lowest trials under a line. -/
structure Lowest (line : ℝ → ℝ) (trials : List (Kept ℝ P)) (k : Kept ℝ P) : Prop where
  under : k.value ≤ line k.step
  place : ∃ before after, trials = before ++ k :: after ∧
    (∀ t ∈ before, t.value ≤ line t.step → k.value ≤ t.value) ∧
      ∀ t ∈ after, t.value ≤ line t.step → k.value < t.value

/-- The searches that `search` goes through, with the trials so far and the one that is kept of them. -/
inductive Visits (evaluate : ℝ → τ → Attempt ℝ P × τ) (o : LineOptions ℝ) (value slope step longest : ℝ) (world : τ) :
    List (Kept ℝ P) → Wolfe ℝ → Option (Kept ℝ P) → τ → Prop
  | start {s : Wolfe ℝ}
      (h : Wolfe.start value slope (Scalar.least step longest) longest o.c1 o.c2 o.tolerance 0 = .ok s) :
      Visits evaluate o value slope step longest world [] s none world
  | trial {trials : List (Kept ℝ P)} {s s' : Wolfe ℝ} {kept : Option (Kept ℝ P)} {w w' : τ} {p : P} {v g : ℝ}
      (h : Visits evaluate o value slope step longest world trials s kept w)
      (hgo : trials = [] ∨ o.evaluations.reached trials.length = false)
      (hev : evaluate s.step w = (.answered p v g, w')) (hu : s.update v g = (.ok none, s')) :
      Visits evaluate o value slope step longest world (trials ++ [⟨s.step, p, v⟩]) s' (keep s kept s.step p v) w'

namespace Lowest

variable {line : ℝ → ℝ} {trials : List (Kept ℝ P)} {k t : Kept ℝ P}

theorem le (h : Lowest line trials k) (ht : t ∈ trials) (hunder : t.value ≤ line t.step) : k.value ≤ t.value := by
  obtain ⟨before, after, rfl, hbefore, hafter⟩ := h.place
  rcases List.mem_append.mp ht with ht | ht
  · exact hbefore t ht hunder
  · rcases List.mem_cons.mp ht with rfl | ht
    · exact le_rfl
    · exact (hafter t ht hunder).le

theorem append_higher (h : Lowest line trials k) (ht : t.value ≤ line t.step → k.value < t.value) :
    Lowest line (trials ++ [t]) k := by
  obtain ⟨before, after, rfl, hbefore, hafter⟩ := h.place
  refine ⟨h.under, before, after ++ [t], by simp, hbefore, ?_⟩
  intro u hu hunder
  rcases List.mem_append.mp hu with hu | hu
  · exact hafter u hu hunder
  · obtain rfl := List.mem_singleton.mp hu
    exact ht hunder

theorem append_last (ht : t.value ≤ line t.step) (h : ∀ u ∈ trials, u.value ≤ line u.step → t.value ≤ u.value) :
    Lowest line (trials ++ [t]) t :=
  ⟨ht, trials, [], rfl, h, nofun⟩

end Lowest

section

variable {s s' : Wolfe ℝ} {kept : Option (Kept ℝ P)} {trials : List (Kept ℝ P)} {p : P} {v g : ℝ}

/-- The best end of the bracket and the trial that is kept apart from it: either none has sufficient decrease, or both
are the latest of the lowest ones that have. -/
inductive Agree (s : Wolfe ℝ) (trials : List (Kept ℝ P)) : Option (Kept ℝ P) → Prop
  | origin (hbest : s.bracket.best = s.origin) (hnone : ∀ t ∈ trials, s.line t.step < t.value) : Agree s trials none
  | trial {k : Kept ℝ P} (hlow : Lowest s.line trials k) (hstep : s.bracket.best.step = k.step)
      (hvalue : s.bracket.best.value = k.value) : Agree s trials (some k)

namespace Agree

variable (h : Agree s trials kept)

include h

/-- The bracket and what is kept are changed by the same trials. -/
theorem keep_eq (hs : s.Sound) : keep s kept s.step p v =
    if v ≤ s.line s.step ∧ v ≤ s.bracket.best.value then some ⟨s.step, p, v⟩ else kept := by
  have hlt := hs.line_lt hs.step_pos
  cases h with
  | origin hbest =>
      have hvalue : s.bracket.best.value = s.value := by
        rw [hbest]
        rfl
      refine if_congr ?_ rfl rfl
      simp only [Bool.and_true, Bool.and_eq_true, decide_eq_true_eq, Wolfe.sufficientDecrease, hvalue]
      exact ⟨fun hv => ⟨hv.2, hv.1.le⟩, fun hv => ⟨hv.1.trans_lt hlt, hv.1⟩⟩
  | trial _ _ hvalue =>
      refine if_congr ?_ rfl rfl
      simp only [Bool.and_eq_true, decide_eq_true_eq, Wolfe.sufficientDecrease, hvalue]
      exact ⟨fun hv => ⟨hv.1.2, hv.2⟩, fun hv => ⟨⟨hv.1.trans_lt hlt, hv.1⟩, hv.2⟩⟩

theorem best_le : ∀ t ∈ trials, t.value ≤ s.line t.step → s.bracket.best.value ≤ t.value := by
  intro t ht hunder
  cases h with
  | origin _ hnone => exact absurd (hnone t ht) hunder.not_gt
  | trial hlow _ hvalue => exact hvalue.trans_le (hlow.le ht hunder)

theorem update (hs : s.Sound) (hu : s.update v g = (.ok none, s')) :
    Agree s' (trials ++ [⟨s.step, p, v⟩]) (keep s kept s.step p v) := by
  obtain ⟨-, hsame, hnext⟩ := hs.update_sound hu
  have hbest := congrArg Bracket.best hnext
  rw [Wolfe.next_best] at hbest
  rw [h.keep_eq hs]
  split_ifs at hbest ⊢ with hv
  · refine .trial ?_ (by rw [hbest]) (by rw [hbest])
    rw [hsame.line]
    exact .append_last hv.1 fun t ht hunder => hv.2.trans (h.best_le t ht hunder)
  · cases h with
    | origin ho hnone =>
        -- A trial of sufficient decrease would lie below the start, which is the best end.
        have hlt : s.line s.step < v := by
          by_contra hle
          have hvalue : v < s.value := (not_lt.mp hle).trans_lt (hs.line_lt hs.step_pos)
          exact hv ⟨not_lt.mp hle, hvalue.le.trans_eq (congrArg Sample.value ho).symm⟩
        refine .origin (hbest.trans (ho.trans hsame.origin.symm)) ?_
        intro t ht
        rw [hsame.line]
        rcases List.mem_append.mp ht with ht | ht
        · exact hnone t ht
        · obtain rfl := List.mem_singleton.mp ht
          exact hlt
    | trial hlow hstep hvalue =>
        refine .trial ?_ (hbest ▸ hstep) (hbest ▸ hvalue)
        rw [hsame.line]
        exact hlow.append_higher fun hunder => not_le.mp fun hle => hv ⟨hunder, hle.trans_eq hvalue.symm⟩

end Agree

end

namespace Visits

variable {evaluate : ℝ → τ → Attempt ℝ P × τ} {o : LineOptions ℝ} {value slope step longest : ℝ} {world w : τ}
  {trials : List (Kept ℝ P)} {s : Wolfe ℝ} {kept : Option (Kept ℝ P)}

theorem sound (hc1 : 0 < o.c1) (hc : o.c1 < o.c2) (hc2 : o.c2 < 1) (htol : o.tolerance < 1) (hslope : slope < 0)
    (hstep : 0 < step) (hlong : 0 < longest) (h : Visits evaluate o value slope step longest world trials s kept w) :
    s.Sound ∧ s.greatest = longest ∧ s.origin = ⟨0, value, slope⟩ ∧ (∀ t, s.line t = value + t * (o.c1 * slope)) ∧
      Agree s trials kept := by
  induction h with
  | start h =>
      rw [Scalar.least_real] at h
      have hpos : 0 < min step longest := lt_min hstep hlong
      have hs := Wolfe.start_sound hc1 hc hc2 htol hslope hpos (min_le_right _ _) h
      rw [Wolfe.start_eq_ok hc1 hc hc2 hslope hpos.le (min_le_right _ _)] at h
      cases h
      exact ⟨hs, rfl, rfl, fun t => rfl, .origin rfl nofun⟩
  | trial h _ _ hu ih =>
      obtain ⟨hs, hgreatest, horigin, hline, hagree⟩ := ih
      obtain ⟨hs', hsame, -⟩ := hs.update_sound hu
      exact ⟨hs', hsame.greatest.trans hgreatest, hsame.origin.trans horigin, fun t => hsame.line ▸ hline t,
        hagree.update hs hu⟩

/-- What is left of a search after some of its trials is the loop from there. -/
theorem search_eq_loop (hcap : ∃ i, o.evaluations = .whole i)
    (h : Visits evaluate o value slope step longest world trials s kept w)
    (hgo : trials = [] ∨ o.evaluations.reached trials.length = false) :
    search evaluate o value slope step longest world =
      loop evaluate o.evaluations (max 1 o.evaluations.rounds - trials.length) s kept trials.length w := by
  induction h with
  | start h => rw [search, h, List.length_nil, Nat.sub_zero]
  | @trial trials s s' kept w w' p v g h hbefore hev hu ih =>
      have hmore : trials.length < max 1 o.evaluations.rounds := by
        rcases hbefore with rfl | hbefore
        · exact lt_max_of_lt_left Nat.one_pos
        · obtain ⟨i, hi⟩ := hcap
          rw [hi] at hbefore ⊢
          exact lt_max_of_lt_right (Cap.lt_rounds_whole hbefore)
      have hnext : o.evaluations.reached (trials.length + 1) = false := by simpa using hgo
      rw [ih hbefore, List.length_append, List.length_singleton, ← Nat.sub_add_cancel (Nat.sub_pos_of_lt hmore),
        Nat.sub_sub, loop, hev]
      simp only [hu, hnext, Bool.false_eq_true, if_false]

end Visits

end Line

end BoxBfgs
