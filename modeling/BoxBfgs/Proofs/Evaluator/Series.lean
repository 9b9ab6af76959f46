import BoxBfgs.Proofs.Double
import BoxBfgs.Proofs.Run.Tally

namespace BoxBfgs.Evaluator

section

variable {X α σ κ : Type} [Scalar α] {n : Nat} {e : Evaluator X α n} {view : X → Tensor α} {x : X}

/-- Calls of an evaluator, one after the other, with what each of them comes to. -/
def series (o : Objective α σ) (view : X → Tensor α) :
    Evaluator X α n → List X → σ → List (Except (Fault α) (Evaluated X α n)) × Evaluator X α n × σ
  | e, [], w => ([], e, w)
  | e, x :: xs, w =>
      let (r, e, w) := e.call o view x w
      let (rs, e, w) := series o view e xs w
      (r :: rs, e, w)

/-- The points of the calls that were answered. -/
def answers (rs : List (Except (Fault α) (Evaluated X α n))) : List (Evaluated X α n) := rs.filterMap Except.toOption

/-- What a call comes to, beside somebody who writes down the calls of the objective. -/
inductive Settled (e : Evaluator X α n) (view : X → Tensor α) (x : X) (w : World α (Watched α κ)) :
    Except (Fault α) (Evaluated X α n) × Evaluator X α n × World α (Watched α κ) → Prop
  /-- The objective is not called, and nothing changes. -/
  | refused (hout : e.exhausted = true) : Settled e view x w (.error (.budget e.budget), e, w)
  /-- The objective gives a finite value with a finite gradient of the right length, and these are returned. -/
  | answered {f : α} {t : Tensor α} {g : Vector α n} {w' : World α (Watched α κ)} (hleft : e.exhausted = false)
      (hw : w'.calls = w.calls ++ [⟨view x, .answer (f, t)⟩]) (hg : t.entries = g.toList)
      (hfinite : Scalar.isFinite f = true ∧ Vec.isFinite g = true) :
      Settled e view x w
        (.ok { x, f, g }, { e with count := e.count + 1, best := better e.best { x, f, g } }, w')
  /-- The objective gives nothing of the kind, and only the count changes. -/
  | failed {why : Fault α} {reply : Reply α (α × Tensor α)} {w' : World α (Watched α κ)} (hleft : e.exhausted = false)
      (hw : w'.calls = w.calls ++ [⟨view x, reply⟩])
      (hbad : ∀ f t (g : Vector α n), reply = .answer (f, t) → t.entries = g.toList →
        ¬(Scalar.isFinite f = true ∧ Vec.isFinite g = true)) :
      Settled e view x w (.error why, { e with count := e.count + 1 }, w')

theorem entries_of_vector? {β : Type} {t : Tensor β} {g : Vector β n} (h : t.vector? n = some g) :
    t.entries = g.toList := by
  rw [Tensor.vector?, Vec.ofList?] at h
  split at h
  · cases h
    rfl
  · cases h

theorem check_eq_ok {k : Nat} {f : α} {t : Tensor α} {p : Evaluated X α n} (h : e.check k x f t = .ok p) :
    ∃ g : Vector α n, p = { x, f, g } ∧ t.entries = g.toList ∧ Scalar.isFinite f = true ∧ Vec.isFinite g = true := by
  rw [check] at h
  split at h
  · cases h
  · rename_i g hg
    split at hg
    · split at h
      · rename_i hfinite
        cases h
        exact ⟨g, rfl, entries_of_vector? hg, by simpa using hfinite⟩
      · cases h
    · cases hg

theorem check_of_finite (he : e.expected = .whole n) {k : Nat} {f : α} {t : Tensor α} {g : Vector α n}
    (hg : t.entries = g.toList) (hfinite : Scalar.isFinite f = true ∧ Vec.isFinite g = true) :
    e.check k x f t = .ok { x, f, g } := by
  have hvector : t.vector? n = some g := by rw [Tensor.vector?, hg, Vec.ofList?_toList]
  have hwhole : e.expected.isWhole t.entries.length = true := by simp [he, hg, Value.isWhole]
  rw [check, hwhole, if_pos rfl, hvector]
  simp [hfinite]

theorem call_settled (he : e.expected = .whole n) (o : Objective α (World α κ)) (w : World α (Watched α κ)) :
    Settled e view x w (e.call o.watched view x w) := by
  have hcalled : Called e o.watched view x w (e.call o.watched view x w) := call_called
  generalize e.call o.watched view x w = r at hcalled
  cases hcalled with
  | refused hout => exact .refused hout
  | answered hleft hreply hp =>
      obtain ⟨g, rfl, hg, hfinite⟩ := check_eq_ok hp
      exact .answered hleft (Objective.call_watched hreply).2 hg hfinite
  | failed hleft hreply hbad =>
      refine .failed hleft (Objective.call_watched hreply).2 fun f t g hr hg hfinite => ?_
      exact hbad f t hr _ (check_of_finite he hg hfinite)

/-- Who writes down the calls of the objective changes nothing. -/
theorem series_plain (o : Objective α (World α κ)) (xs : List X) (e : Evaluator X α n) (w : World α (Watched α κ)) :
    series o view e xs w.plain = ((series o.watched view e xs w).1, (series o.watched view e xs w).2.1,
      (series o.watched view e xs w).2.2.plain) := by
  induction xs generalizing e w with
  | nil => rfl
  | cons x xs ih => simp only [series, call_plain, ih]

end

section

variable {X κ : Type} {n : Nat} {points : List (Evaluated X Float n)} {p q : Evaluated X Float n}
  {best : Option (Evaluated X Float n)}

/-- The first of the lowest points. -/
def Foremost (points : List (Evaluated X Float n)) (q : Evaluated X Float n) : Prop :=
  ∃ before after, points = before ++ q :: after ∧ (∀ p ∈ before, q.f < p.f) ∧ ∀ p ∈ after, q.f ≤ p.f

theorem Foremost.lower (h : Foremost points q) (hp : p.f < q.f) : Foremost (points ++ [p]) p := by
  obtain ⟨before, after, rfl, hbefore, hafter⟩ := h
  refine ⟨before ++ q :: after, [], rfl, fun a ha => ?_, nofun⟩
  rcases List.mem_append.mp ha with ha | ha
  · exact Double.lt_of_lt_of_le hp (Double.le_of_lt (hbefore a ha))
  · rcases List.mem_cons.mp ha with rfl | ha
    · exact hp
    · exact Double.lt_of_lt_of_le hp (hafter a ha)

theorem Foremost.higher (h : Foremost points q) (hp : q.f ≤ p.f) : Foremost (points ++ [p]) q := by
  obtain ⟨before, after, rfl, hbefore, hafter⟩ := h
  refine ⟨before, after ++ [p], by simp, hbefore, fun a ha => ?_⟩
  rcases List.mem_append.mp ha with ha | ha
  · exact hafter a ha
  · rwa [List.mem_singleton.mp ha]

/-- The best of some points: none if there are none, otherwise the first of the lowest. -/
inductive Leads : Option (Evaluated X Float n) → List (Evaluated X Float n) → Prop
  | none : Leads none []
  | some {points : List (Evaluated X Float n)} {q : Evaluated X Float n} (h : Foremost points q) : Leads (some q) points

/-- Numbers that are finite can be compared, so that a point that is not lower is higher or level. -/
theorem Leads.better (h : Leads best points) (hq : ∀ q ∈ points, q.f.isFinite = true) (hp : p.f.isFinite = true) :
    Leads (better best p) (points ++ [p]) := by
  cases h with
  | none => exact .some ⟨[], [], rfl, nofun, nofun⟩
  | @some _ q h =>
      have hmem : q ∈ points := by
        obtain ⟨before, after, rfl, -, -⟩ := h
        exact List.mem_append_right _ List.mem_cons_self
      rw [Evaluator.better]
      split
      · rename_i hlt
        exact .some (h.lower hlt)
      · rename_i hnot
        exact .some (h.higher (Double.le_of_not_lt (Double.isNaN_of_isFinite (hq q hmem))
          (Double.isNaN_of_isFinite hp) hnot))

/-- An evaluator beside what the calls so far have come to and what the objective was called for. -/
structure Accounts (b : ℤ) (e : Evaluator X Float n) (rs : List (Except (Fault Float) (Evaluated X Float n)))
    (calls : List (Call Float)) : Prop where
  budget : e.budget = .whole b
  expected : e.expected = .whole n
  count : e.count = calls.length
  within : (e.count : ℤ) ≤ max b 0
  finite : ∀ q ∈ answers rs, q.f.isFinite = true
  best : Leads e.best (answers rs)

variable {b : ℤ} {e : Evaluator X Float n} {rs : List (Except (Fault Float) (Evaluated X Float n))}
  {w : World Float (Watched Float κ)} (o : Objective Float (World Float κ)) (view : X → Tensor Float)

theorem exhausted_whole (h : e.budget = .whole b) : e.exhausted = true ↔ b ≤ e.count := by
  simp [exhausted, h, Cap.reached]

theorem answers_concat_ok (rs : List (Except (Fault Float) (Evaluated X Float n))) (p : Evaluated X Float n) :
    answers (rs ++ [.ok p]) = answers rs ++ [p] := by
  simp [answers, Except.toOption]

theorem answers_concat_error (rs : List (Except (Fault Float) (Evaluated X Float n))) (why : Fault Float) :
    answers (rs ++ [.error why]) = answers rs := by
  simp [answers, Except.toOption]

theorem Accounts.error {calls : List (Call Float)} (h : Accounts b e rs calls) (why : Fault Float) :
    Accounts b e (rs ++ [.error why]) calls := by
  have hanswers := answers_concat_error rs why
  exact ⟨h.budget, h.expected, h.count, h.within, hanswers ▸ h.finite, hanswers ▸ h.best⟩

theorem Accounts.counted {calls : List (Call Float)} (h : Accounts b e rs calls) (hleft : e.exhausted = false)
    (c : Call Float) : Accounts b { e with count := e.count + 1 } rs (calls ++ [c]) where
  budget := h.budget
  expected := h.expected
  count := by simp [h.count]
  within := by
    have hlt : ¬b ≤ e.count := by rw [← exhausted_whole h.budget, hleft]; exact Bool.false_ne_true
    dsimp only
    omega
  finite := h.finite
  best := h.best

theorem Accounts.answered {calls : List (Call Float)} (h : Accounts b e rs calls) (hp : p.f.isFinite = true) :
    Accounts b { e with best := better e.best p } (rs ++ [.ok p]) calls where
  budget := h.budget
  expected := h.expected
  count := h.count
  within := h.within
  finite := by
    rw [answers_concat_ok, List.forall_mem_append, List.forall_mem_singleton]
    exact ⟨h.finite, hp⟩
  best := by
    rw [answers_concat_ok]
    exact h.best.better h.finite hp

theorem Accounts.call (h : Accounts b e rs w.calls) (x : X) : Accounts b (e.call o.watched view x w).2.1
    (rs ++ [(e.call o.watched view x w).1]) (e.call o.watched view x w).2.2.calls := by
  have hsettled : Settled e view x w (e.call o.watched view x w) := call_settled h.expected o w
  generalize e.call o.watched view x w = r at hsettled
  cases hsettled with
  | refused => exact h.error _
  | answered hleft hw hg hfinite =>
      dsimp only
      rw [hw]
      exact (h.counted hleft _).answered hfinite.1
  | failed hleft hw =>
      dsimp only
      rw [hw]
      exact (h.counted hleft _).error _

theorem Accounts.calls (h : Accounts b e rs w.calls) (xs : List X) : Accounts b (series o.watched view e xs w).2.1
    (rs ++ (series o.watched view e xs w).1) (series o.watched view e xs w).2.2.calls := by
  induction xs generalizing e rs w with
  | nil => simpa [series] using h
  | cons x xs ih =>
      have hrest := ih (h.call o view x)
      rwa [List.append_assoc, List.singleton_append] at hrest

/-- However the objective behaves, an evaluator counts its calls and keeps the first of the lowest points that were
answered, and its count stays within the budget, or at zero where the budget is negative. A call for which the budget
leaves no room is refused, and changes nothing; one that fails only counts; and one that is answered gives what the
objective gave. -/
theorem series_accounted (b : ℤ) (o : Objective Float (World Float κ)) (view : X → Tensor Float) (xs : List X)
    (w : World Float κ) :
    ∃ (rs : List (Except (Fault Float) (Evaluated X Float n))) (e : Evaluator X Float n)
      (w' : World Float (Watched Float κ)),
      series o.watched view { budget := .whole b } xs (w.watched []) = (rs, e, w') ∧
      series o view { budget := .whole b } xs w = (rs, e, w'.plain) ∧
      e.count = w'.calls.length ∧ (e.count : ℤ) ≤ max b 0 ∧ (e.exhausted = true ↔ b ≤ e.count) ∧
      Leads e.best (answers rs) ∧ ∀ x, Settled e view x w' (e.call o.watched view x w') := by
  have hstart : Accounts b ({ budget := .whole b } : Evaluator X Float n) [] (w.watched []).calls :=
    ⟨rfl, rfl, rfl, le_max_right b 0, nofun, .none⟩
  have hend := hstart.calls o view xs
  exact ⟨_, _, _, rfl, series_plain o xs _ (w.watched []), hend.count, hend.within, exhausted_whole hend.budget,
    hend.best, fun x => call_settled hend.expected o _⟩

/-- A budget below zero is exceeded from the start, though nothing is ever called. -/
theorem series_below_zero : ∃ (rs : List (Except (Fault Float) (Evaluated (Tensor Float) Float 1)))
    (e : Evaluator (Tensor Float) Float 1) (w' : World Float (Watched Float Unit)),
    series (Objective.combined fun x w => (.answer (0.0, x), w) : Objective Float (World Float Unit)).watched id
      { budget := .whole (-1) } [.ofList [1.0]] { session := {}, client := ((), []) } = (rs, e, w') ∧
      e.count = w'.calls.length ∧ ¬(e.count : ℤ) ≤ -1 :=
  ⟨_, _, _, rfl, rfl, by decide⟩

end

end BoxBfgs.Evaluator
