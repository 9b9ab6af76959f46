import BoxBfgs.Proofs.Search.Safety
import Mathlib.Analysis.SpecialFunctions.Log.Base

namespace BoxBfgs

namespace Wolfe

open BoxBfgs.Bracket Relation

variable {s s' u : Wolfe ℝ} {b : Bracket ℝ} {v g p : ℝ}

/-- The search with an open bracket after one that had an open bracket too: `p` is the step proposed, which is taken
unless it is beyond the greatest one. -/
structure Stretched (s s' : Wolfe ℝ) (p : ℝ) : Prop where
  below : s.step < s.greatest
  ahead : s.step < p
  low_le : s.low ≤ p
  le_high : p ≤ s.high
  far : s.bracket.best = s.origin → min s.high (s.step + s.c2 / (1 - s.c2) * s.step) ≤ p
  step : s'.step = min p s.greatest
  low : s'.low = p + 1.1 * (p - s.step)
  high : s'.high = p + 4.0 * (p - s.step)

theorem moved_stretched (h : b.closed = false) (hleast : s.least = 0) (hp : 0 ≤ p) :
    (s.moved b p).step = min p s.greatest ∧ (s.moved b p).low = p + 1.1 * (p - b.best.step) ∧
      (s.moved b p).high = p + 4.0 * (p - b.best.step) := by
  simp [moved, h, hleast, max_eq_left hp]

/-- A slope that is not yet small against the first one is met by the straight line well beyond the trial. -/
theorem secant_far {c slope t : ℝ} (hc : c < 1) (hslope : slope < g) (hg : g < c * slope) (ht : 0 < t) :
    t + c / (1 - c) * t ≤ t + g / (g - slope) * (0 - t) := by
  have hratio : c / (1 - c) ≤ -g / (g - slope) := by
    rw [div_le_div_iff₀ (sub_pos.mpr hc) (sub_pos.mpr hslope)]
    linarith
  have hle := mul_le_mul_of_nonneg_right hratio ht.le
  rw [neg_div] at hle
  linarith

theorem next_open {t : Sample ℝ} (h : (s.next t).closed = false) :
    s.next t = { s.bracket with best := t } ∧ s.bracket.closed = false ∧ t.value ≤ s.line t.step ∧
      0 ≤ s.bracket.best.slope * t.slope := by
  simp only [next, replace] at h ⊢
  split_ifs at h ⊢ with hv hb ho
  exact ⟨rfl, h, not_lt.mp hv, not_lt.mp ho⟩

namespace Sound

variable (h : s.Sound)

include h

theorem extending_of_open (hc : s.bracket.closed = false) : s.Extending := by
  rcases h.phase with he | hd | hn
  · exact he
  · exact absurd (hc.symm.trans hd.closed) Bool.false_ne_true
  · exact absurd (hc.symm.trans hn.closed) Bool.false_ne_true

theorem stretched (hu : s.update v g = (.ok none, s')) (hopen : s'.bracket.closed = false) :
    ∃ p, Stretched s s' p := by
  have hnext := (h.update_sound hu).2.2
  obtain ⟨hg, b, p, hb, rfl⟩ := update_eq_none hu
  have hs := hg.of_switched
  have hsame := switched_sameLine s v g
  obtain ⟨p', hok, -, hover⟩ := h.narrowed_eq_ok hs
  cases hb.symm.trans hok
  rw [hnext] at hopen
  obtain ⟨hreplace, hc, hv, ho⟩ := next_open hopen
  have he := h.extending_of_open hc
  have hsteep := h.steep_of_tilted hs he.tilted hv ho
  have hneg := hsteep.trans (h.steep_lt.trans h.slopeTest_neg)
  obtain ⟨hahead, hlow, hhigh⟩ := hover hopen he.step hneg he.low_high he.step_high
  have hfar : p = s.high ∨ s.bracket.best.slope < g ∧
      min s.high (s.step + g / (g - s.bracket.best.slope) * (s.bracket.best.step - s.step)) ≤ p := by
    rw [narrowed, if_neg, switched_bracket, switched_low, switched_high] at hb
    · exact update_far (h.downhill hs) he.step hneg he.step_high hb hopen
    · rw [hsame.line, switched_step]
      simp [not_lt.mpr hv]
  obtain ⟨hstep, hl, hh⟩ := moved_stretched (s := s.switched v g) (p := p) hopen (hsame.least.trans h.least)
    (h.step_pos.trans hahead).le
  have hbest : (s.next ⟨s.step, v, g⟩).best.step = s.step := by rw [hreplace]
  rw [hbest] at hl hh
  refine ⟨p, ?_, hahead, hlow, hhigh, fun horigin => ?_, hsame.greatest ▸ hstep, hl, hh⟩
  · exact lt_of_le_of_ne h.step_le fun heq => absurd (hs.below heq hv) (hsteep.trans h.steep_lt).not_gt
  · rcases hfar with rfl | ⟨hslope, hle⟩
    · exact min_le_left _ _
    · rw [horigin] at hslope hle
      exact (min_le_min_left _ (secant_far h.c2_lt hslope hsteep h.step_pos)).trans hle

end Sound

namespace Stretched

variable {s'' : Wolfe ℝ} {q : ℝ}

theorem lt (h : Stretched s s' p) : s.step < s'.step := by
  rw [h.step]
  exact lt_min h.ahead h.below

theorem step_eq (h : Stretched s s' p) (hlt : s'.step < s.greatest) : s'.step = p := by
  rw [h.step] at hlt ⊢
  exact min_eq_left (le_of_not_ge fun hle => (min_eq_right hle ▸ hlt).false)

/-- The next trial is farther from the one before it by 1.1 to 4 times as much as that one from the one before. -/
theorem next (h : Stretched s s' p) (h' : Stretched s' s'' q) (hgreatest : s'.greatest = s.greatest) :
    s''.step = s.greatest ∨ s''.step ∈ Set.Icc (s'.step + 1.1 * (s'.step - s.step)) (s'.step + 4 * (s'.step - s.step)) := by
  have hp := h.step_eq (h'.below.trans_eq hgreatest)
  have hlow := h'.low_le
  have hhigh := h'.le_high
  rw [h.low, ← hp] at hlow
  rw [h.high, ← hp] at hhigh
  rw [h'.step, hgreatest]
  rcases le_total s.greatest q with hq | hq
  · exact .inl (min_eq_right hq)
  · rw [min_eq_left hq]
    norm_num at hlow hhigh ⊢
    exact .inr ⟨hlow, hhigh⟩

end Stretched

theorem Onward.sameLine (h : s.Onward s') : SameLine s s' := by
  obtain ⟨v, g, hu⟩ := h
  obtain ⟨-, b, p, -, rfl⟩ := update_eq_none hu
  exact (switched_sameLine s v g).trans (moved_sameLine _ _ _)

/-- The search that never ends for a narrow bracket. -/
def eased (s : Wolfe ℝ) : Wolfe ℝ := { s with tolerance := 0 }

theorem eased_switched : s.eased.switched v g = (s.switched v g).eased := by
  rw [switched, switched]
  split_ifs <;> first | rfl | contradiction

theorem eased_outcome (h : s.bracket.closed = false) : s.eased.outcome? v g = s.outcome? v g := by
  simp only [outcome?, eased, h]
  rfl

theorem eased_moved (h : b.closed = false) : s.eased.moved b p = (s.moved b p).eased := by
  simp only [moved, h, eased]
  rfl

theorem update_fst (s : Wolfe ℝ) (v g : ℝ) : (s.update v g).1 = match (s.switched v g).outcome? v g with
    | some o => .ok (some o)
    | none => ((s.switched v g).narrowed ⟨s.step, v, g⟩).map fun _ => none := by
  rw [update_eq]
  cases (s.switched v g).outcome? v g with
  | some o => rfl
  | none => cases (s.switched v g).narrowed ⟨s.step, v, g⟩ <;> rfl

/-- As long as the bracket is open, how narrow it may become does not matter. -/
theorem eased_update (h : s.bracket.closed = false) : (s.eased.update v g).1 = (s.update v g).1 := by
  have hout := eased_outcome (v := v) (g := g) ((congrArg Bracket.closed (switched_bracket (v := v) (g := g))).trans h)
  rw [update_fst, update_fst, eased_switched, hout]
  rfl

theorem Onward.eased (h : s.Onward s') (hc : s.bracket.closed = false) :
    ∃ e, s.eased.Onward e ∧ e.bracket = s'.bracket ∧ (s'.bracket.closed = false → e = s'.eased) := by
  obtain ⟨v, g, hu⟩ := h
  have hfst : (s.eased.update v g).1 = .ok none := (eased_update hc).trans (congrArg Prod.fst hu)
  have hsnd : s.eased.update v g = (.ok none, (s.eased.update v g).2) := Prod.ext hfst rfl
  obtain ⟨-, b, p, hb, rfl⟩ := update_eq_none hu
  obtain ⟨-, b', p', hb', hmoved⟩ := update_eq_none hsnd
  rw [eased_switched] at hb' hmoved
  cases hb.symm.trans hb'
  rw [hmoved] at hsnd
  rw [moved_bracket]
  exact ⟨_, ⟨v, g, hsnd⟩, moved_bracket, eased_moved⟩

section Run

variable {u : ℕ → Wolfe ℝ} {n i : ℕ} (h : (u 0).eased.Sound) (hgo : ∀ i < n, (u i).Onward (u (i + 1)))
  (hopen : ∀ i ≤ n, (u i).bracket.closed = false)

include h hgo hopen

theorem eased_sound (hi : i ≤ n) : (u i).eased.Sound ∧ SameLine (u 0) (u i) := by
  induction i with
  | zero => exact ⟨h, ⟨rfl, rfl, rfl, rfl, rfl, rfl, rfl⟩⟩
  | succ i ih =>
      obtain ⟨hs, hsame⟩ := ih (Nat.le_of_succ_le hi)
      have ho := hgo i hi
      obtain ⟨e, he, -, heq⟩ := ho.eased (hopen i (Nat.le_of_succ_le hi))
      rw [← heq (hopen (i + 1) hi)]
      exact ⟨(hs.onward he).1, hsame.trans ho.sameLine⟩

theorem run_stretched (hi : i < n) : ∃ p, Stretched (u i) (u (i + 1)) p := by
  have hs := (eased_sound h hgo hopen hi.le).1
  obtain ⟨e, ⟨v, g, hu⟩, -, heq⟩ := (hgo i hi).eased (hopen i hi.le)
  rw [heq (hopen (i + 1) hi)] at hu
  obtain ⟨p, hp⟩ := hs.stretched hu (hopen (i + 1) hi)
  exact ⟨p, hp.below, hp.ahead, hp.low_le, hp.le_high, hp.far, hp.step, hp.low, hp.high⟩

/-- The distances between the trials grow by a tenth each time. -/
theorem run_gap (hbest : (u 0).bracket.best = (u 0).origin) (hhigh : (u 0).high = 5 * (u 0).step) (hi : i + 1 < n) :
    (u 0).step * min 4 ((u 0).c2 / (1 - (u 0).c2)) * 1.1 ^ i ≤ (u (i + 1)).step - (u i).step := by
  induction i with
  | zero =>
      obtain ⟨p, hp⟩ := run_stretched h hgo hopen (Nat.zero_lt_of_lt hi)
      obtain ⟨q, hq⟩ := run_stretched h hgo hopen hi
      have hpos : 0 < (u 0).step := h.step_pos
      have hfar := hp.far hbest
      rw [← hp.step_eq (hq.below.trans_eq (hgo 0 (Nat.zero_lt_of_lt hi)).sameLine.greatest), hhigh] at hfar
      rw [pow_zero, mul_one, mul_min_of_nonneg _ _ hpos.le]
      have hsum : min (5 * (u 0).step) ((u 0).step + (u 0).c2 / (1 - (u 0).c2) * (u 0).step) =
          (u 0).step + min ((u 0).step * 4) ((u 0).step * ((u 0).c2 / (1 - (u 0).c2))) := by
        rw [← min_add_add_left]
        congr 1 <;> ring
      rw [hsum] at hfar
      linarith
  | succ i ih =>
      obtain ⟨p, hp⟩ := run_stretched h hgo hopen (Nat.lt_of_succ_lt (Nat.lt_of_succ_lt hi))
      obtain ⟨q, hq⟩ := run_stretched h hgo hopen (Nat.lt_of_succ_lt hi)
      obtain ⟨r, hr⟩ := run_stretched h hgo hopen hi
      have hgap := ih (Nat.lt_of_succ_lt hi)
      have hsame := (hgo i (Nat.lt_of_succ_lt (Nat.lt_of_succ_lt hi))).sameLine.greatest
      have hsame' := (hgo (i + 1) (Nat.lt_of_succ_lt hi)).sameLine.greatest
      have hlt : (u (i + 2)).step < (u i).greatest := hr.below.trans_eq (hsame'.trans hsame)
      obtain ⟨hle, -⟩ := (hp.next hq hsame).resolve_left hlt.ne
      rw [pow_succ]
      linarith

/-- There are only so many trials before the greatest step is reached. -/
theorem run_length (hbest : (u 0).bracket.best = (u 0).origin) (hhigh : (u 0).high = 5 * (u 0).step) :
    n ≤ ⌈Real.logb 1.1 ((u 0).greatest / ((u 0).step * min 4 ((u 0).c2 / (1 - (u 0).c2))))⌉₊ + 1 := by
  rcases n with _ | _ | k
  · exact Nat.zero_le _
  · exact Nat.le_add_left _ _
  · have hpos : 0 < (u 0).step := h.step_pos
    have hc2 : 0 < (u 0).c2 := h.c1_pos.trans h.c1_lt
    have hrest : 0 < 1 - (u 0).c2 := sub_pos.mpr h.c2_lt
    have hgap := run_gap h hgo hopen hbest hhigh (i := k) (Nat.lt_succ_self _)
    obtain ⟨p, hp⟩ := run_stretched h hgo hopen (i := k + 1) (Nat.lt_succ_self _)
    obtain ⟨hs, -⟩ := eased_sound h hgo hopen (i := k) (by omega)
    obtain ⟨-, hsame⟩ := eased_sound h hgo hopen (i := k + 1) (by omega)
    have hstart : 0 < (u k).step := hs.step_pos
    have hunit : 0 < (u 0).step * min 4 ((u 0).c2 / (1 - (u 0).c2)) :=
      mul_pos hpos (lt_min four_pos (div_pos hc2 hrest))
    have hgreatest : 0 < (u 0).greatest := hpos.trans_le h.step_le
    have hbelow : (1.1 : ℝ) ^ k < (u 0).greatest / ((u 0).step * min 4 ((u 0).c2 / (1 - (u 0).c2))) := by
      rw [lt_div_iff₀' hunit]
      have := hp.below.trans_eq hsame.greatest
      linarith
    have hlog : (k : ℝ) < Real.logb 1.1 ((u 0).greatest / ((u 0).step * min 4 ((u 0).c2 / (1 - (u 0).c2)))) := by
      rw [Real.lt_logb_iff_rpow_lt (by norm_num) (div_pos hgreatest hunit), Real.rpow_natCast]
      exact hbelow
    exact Nat.succ_le_succ (Nat.lt_ceil.mpr hlog)

end Run

/-- A search for which every closed bracket is too narrow. -/
structure Hasty (s : Wolfe ℝ) : Prop where
  tolerance_ge : 1 ≤ s.tolerance
  phase : s.bracket.closed = false ∧ s.eased.Sound ∨ s.bracket.closed = true ∧ 0 ≤ s.low ∧ s.low ≤ s.high

namespace Hasty

theorem update_closed (h : s.Hasty) (hc : s.bracket.closed = true) (v g : ℝ) :
    ∃ o, (s.update v g).1 = .ok (some o) := by
  obtain ⟨hlow, hle⟩ : 0 ≤ s.low ∧ s.low ≤ s.high := by
    rcases h.phase with ⟨ho, -⟩ | ⟨-, hends⟩
    · exact absurd (ho.symm.trans hc) Bool.false_ne_true
    · exact hends
  have hnarrow : s.high - s.low ≤ s.tolerance * s.high := by
    have := le_mul_of_one_le_left (hlow.trans hle) h.tolerance_ge
    linarith
  rw [update_fst]
  cases ho : (s.switched v g).outcome? v g with
  | some o => exact ⟨o, rfl⟩
  | none =>
      have hsame := switched_sameLine s v g
      simp only [outcome?, tooNarrow, switched_bracket, hc, switched_low, switched_high, hsame.tolerance,
        decide_eq_true hnarrow, Bool.and_self, if_true] at ho
      split_ifs at ho

theorem update_eq_ok (h : s.Hasty) (v g : ℝ) : ∃ o, (s.update v g).1 = .ok o := by
  rcases h.phase with ⟨hc, hs⟩ | ⟨hc, -⟩
  · rw [← eased_update hc]
    exact hs.update_eq_ok v g
  · obtain ⟨o, ho⟩ := h.update_closed hc v g
    exact ⟨some o, ho⟩

theorem below (h : s.Hasty) (ho : s.Onward s') (hopen : s'.bracket.closed = false) : s.step < s.greatest := by
  rcases h.phase with ⟨hc, hs⟩ | ⟨hc, -⟩
  · obtain ⟨e, ⟨v, g, hu⟩, hbracket, -⟩ := ho.eased hc
    obtain ⟨p, hp⟩ := hs.stretched hu (hbracket ▸ hopen)
    exact hp.below
  · obtain ⟨v, g, hu⟩ := ho
    obtain ⟨o, hend⟩ := h.update_closed hc v g
    rw [hu] at hend
    cases hend

theorem onward (h : s.Hasty) (ho : s.Onward s') : s'.Hasty := by
  refine ⟨ho.sameLine.tolerance ▸ h.tolerance_ge, ?_⟩
  rcases h.phase with ⟨hc, hs⟩ | ⟨hc, -⟩
  · obtain ⟨e, he, hbracket, heq⟩ := ho.eased hc
    have hsound := (hs.onward he).1
    cases hc' : s'.bracket.closed with
    | false =>
        rw [heq hc'] at hsound
        exact .inl ⟨rfl, hsound⟩
    | true =>
        have hbest := hsound.best_nonneg
        have hother := hsound.other_nonneg
        obtain ⟨v, g, hu⟩ := ho
        obtain ⟨-, b, p, -, rfl⟩ := update_eq_none hu
        rw [hbracket, moved_bracket] at hbest hother
        rw [moved_bracket] at hc'
        rw [moved_low hc', moved_high hc']
        exact .inr ⟨rfl, le_min hbest hother, min_le_max⟩
  · obtain ⟨v, g, hu⟩ := ho
    obtain ⟨o, hend⟩ := h.update_closed hc v g
    rw [hu] at hend
    cases hend

theorem reached (h : s.Hasty) (hr : ReflTransGen Onward s s') : s'.Hasty := by
  induction hr with
  | refl => exact h
  | tail _ ho ih => exact ih.onward ho

end Hasty

theorem reached_sameLine (hr : ReflTransGen Onward s s') : SameLine s s' := by
  induction hr with
  | refl => exact ⟨rfl, rfl, rfl, rfl, rfl, rfl, rfl⟩
  | tail _ ho ih => exact ih.trans ho.sameLine

/-- Whatever values and slopes a search along a falling line is given, as long as the bracket is open each trial is
beyond the last one: the second at most five times the first, and each later one the greatest step or farther by 1.1 to
4 times the distance of the two before it. A trial of the greatest step ends the search or closes the bracket, and so
many trials reach it. -/
theorem start_stretches {value slope step greatest c1 c2 tolerance : ℝ} (hc1 : 0 < c1) (hc : c1 < c2) (hc2 : c2 < 1)
    (hslope : slope < 0) (hstep : 0 < step) (hle : step ≤ greatest) :
    ∃ s₀, start value slope step greatest c1 c2 tolerance 0 = .ok s₀ ∧ s₀.step = step ∧
      (∀ (u : ℕ → Wolfe ℝ) n, u 0 = s₀ → (∀ i < n, (u i).Onward (u (i + 1))) →
        (∀ i ≤ n, (u i).bracket.closed = false) →
        (∀ i < n, (u i).step < (u (i + 1)).step) ∧ (0 < n → (u 1).step ≤ 5 * step) ∧
        (∀ i, i + 2 ≤ n → (u (i + 2)).step = greatest ∨ (u (i + 2)).step ∈ Set.Icc
          ((u (i + 1)).step + 1.1 * ((u (i + 1)).step - (u i).step))
          ((u (i + 1)).step + 4 * ((u (i + 1)).step - (u i).step))) ∧
        n ≤ ⌈Real.logb 1.1 (greatest / (step * min 4 (c2 / (1 - c2))))⌉₊ + 1) ∧
      ∀ s, ReflTransGen Onward s₀ s → ∀ v g, ∃ o s', s.update v g = (.ok o, s') ∧
        (s.step = greatest → o = none → s'.bracket.closed = true) := by
  have hstart : start value slope step greatest c1 c2 tolerance 0 = .ok _ := start_eq_ok hc1 hc hc2 hslope hstep.le hle
  have hsound {x : ℝ} (hx : x < 1) {s : Wolfe ℝ} (h : start value slope step greatest c1 c2 x 0 = .ok s) : s.Sound :=
    start_sound hc1 hc hc2 hx hslope hstep hle h
  have heased := hsound zero_lt_one (start_eq_ok hc1 hc hc2 hslope hstep.le hle)
  refine ⟨_, hstart, rfl, fun u n hu hgo hopen => ?_, fun s hr v g => ?_⟩
  · have h0 : (u 0).eased.Sound := hu ▸ heased
    have hhigh : (u 0).high = 5 * (u 0).step := by
      rw [hu]
      norm_num
      ring
    have hgreatest {i : ℕ} (hi : i ≤ n) : (u i).greatest = greatest := by
      rw [(eased_sound h0 hgo hopen hi).2.greatest, hu]
    refine ⟨fun i hi => ?_, fun hn => ?_, fun i hi => ?_, ?_⟩
    · obtain ⟨p, hp⟩ := run_stretched h0 hgo hopen hi
      exact hp.lt
    · obtain ⟨p, hp⟩ := run_stretched h0 hgo hopen hn
      have hle : (u 1).step ≤ (u 0).high := hp.step.trans_le ((min_le_left _ _).trans hp.le_high)
      rwa [hhigh, hu] at hle
    · obtain ⟨p, hp⟩ := run_stretched h0 hgo hopen (i := i) (by omega)
      obtain ⟨q, hq⟩ := run_stretched h0 hgo hopen (i := i + 1) hi
      rw [← hgreatest (i := i) (by omega)]
      exact hp.next hq ((hgreatest (by omega)).trans (hgreatest (by omega)).symm)
    · have hlength := run_length h0 hgo hopen (by rw [hu]; rfl) hhigh
      rwa [hu] at hlength
  · have hgreatest : s.greatest = greatest := (reached_sameLine hr).greatest
    have hall : (∃ o, (s.update v g).1 = .ok o) ∧
        ∀ s', s.Onward s' → s'.bracket.closed = false → s.step < s.greatest := by
      rcases lt_or_ge tolerance 1 with htol | htol
      · obtain ⟨hs, -⟩ := (hsound htol hstart).reached hr
        refine ⟨hs.update_eq_ok v g, fun s' ⟨v, g, hu⟩ hopen => ?_⟩
        obtain ⟨p, hp⟩ := hs.stretched hu hopen
        exact hp.below
      · have hs : s.Hasty := by
          refine Hasty.reached ?_ hr
          exact ⟨htol, .inl ⟨rfl, heased⟩⟩
        exact ⟨hs.update_eq_ok v g, fun s' => hs.below⟩
    obtain ⟨⟨o, ho⟩, hbelow⟩ := hall
    refine ⟨o, (s.update v g).2, Prod.ext ho rfl, ?_⟩
    rintro hs rfl
    by_contra hopen
    exact (hbelow _ ⟨v, g, Prod.ext ho rfl⟩ (Bool.not_eq_true _ ▸ hopen)).ne (hs.trans hgreatest.symm)

/-- A search whose first trial lies on the falling line itself. -/
theorem start_stretches_straight : ∃ s₀ s₁ : Wolfe ℝ, start 0 (-1) 1 10 0.1 0.9 0.1 0 = .ok s₀ ∧ s₀.Onward s₁ ∧
    s₁.bracket.closed = false ∧ s₀.step < s₁.step ∧ s₁.step ≤ 5 * 1 := by
  have hc1 : (0 : ℝ) < 0.1 := by norm_num
  have hc : (0.1 : ℝ) < 0.9 := by norm_num
  have hc2 : (0.9 : ℝ) < 1 := by norm_num
  have hslope : (-1 : ℝ) < 0 := by norm_num
  have hle : (1 : ℝ) ≤ 10 := by norm_num
  obtain ⟨s₀, hstart, -, hall, -⟩ := @start_stretches 0 (-1) 1 10 0.1 0.9 0.1 hc1 hc hc2 hslope one_pos hle
  obtain ⟨s₁, hu, hclosed⟩ : ∃ s₁, s₀.update (-1) (-1) = (.ok none, s₁) ∧ s₁.bracket.closed = false := by
    rw [start_eq_ok hc1 hc hc2 hslope zero_le_one hle] at hstart
    cases hstart
    refine ⟨_, Prod.ext ?_ rfl, ?_⟩
    · norm_num [update_fst, switched, outcome?, line, slopeTest, narrowed, Bracket.update, opposed, stepSteeper,
        Except.map, pure, Except.pure]
    · norm_num [update, outcome?, line, slopeTest, narrowed, Bracket.update, opposed, stepSteeper, moved, Except.map,
        pure, Except.pure]
  have hopen : s₀.bracket.closed = false := by
    rw [start_eq_ok hc1 hc hc2 hslope zero_le_one hle] at hstart
    cases hstart
    rfl
  obtain ⟨hlt, hfirst, -⟩ := hall (fun i => if i = 0 then s₀ else s₁) 1 rfl
    (fun i hi => by simpa [Nat.lt_one_iff.mp hi] using ⟨_, _, hu⟩)
    (fun i hi => by
      rcases Nat.le_one_iff_eq_zero_or_eq_one.mp hi with rfl | rfl
      · exact hopen
      · exact hclosed)
  exact ⟨s₀, s₁, hstart, ⟨_, _, hu⟩, hclosed, hlt 0 one_pos, hfirst one_pos⟩

end Wolfe

end BoxBfgs
