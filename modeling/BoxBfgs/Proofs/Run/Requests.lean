import BoxBfgs.Proofs.Run.Akin
import BoxBfgs.Proofs.Run.Tally

namespace BoxBfgs

/-- The options of one call: ready ones, or what a client gives in place of them. -/
inductive Config where
  | ready (o : Options Float)
  | given (v : Value)

namespace Config

def resolve (own : Options Float) : Config → Except (Fault Float) (Options Float)
  | .ready o => .ok o
  | .given v => own.override v

end Config

/-- A change of the options of a solver, as a client gives it. -/
inductive Setting where
  | number (name : String) (v : Value)
  | whole (name : String) (v : Value)
  | option (name : String) (v : Value)
  | printing (v : Value)
  | bounds (lower upper tags : Value)

/-- What can be asked of a solver. -/
inductive Request (κ : Type) where
  | set (change : Setting)
  | callback (f : Option (Callback Float κ))
  | minimize (offer : Offer Float (World Float κ)) (start : Start Float) (config : Config)

namespace Setting

variable {κ : Type} {s s' : Solver Float κ}

def apply (s : Solver Float κ) : Setting → Except (Fault Float) (Solver Float κ)
  | .number name v => s.setNumber name v
  | .whole name v => s.setWhole name v
  | .option name v => s.change [(name, v)]
  | .printing v => s.setPrinting v
  | .bounds lower upper tags => s.setBounds lower upper tags

theorem change_callback {given : List (String × Value)} (h : s.change given = .ok s') : s'.callback = s.callback := by
  obtain ⟨o, -, rfl⟩ := map_eq_ok h
  rfl

theorem apply_callback {x : Setting} (h : x.apply s = .ok s') : s'.callback = s.callback := by
  cases x with
  | number | whole =>
      obtain ⟨a, -, h⟩ := bind_eq_ok h
      exact change_callback h
  | option => exact change_callback h
  | printing =>
      obtain ⟨o, -, h⟩ := bind_eq_ok h
      cases h
      rfl
  | bounds lower upper tags =>
      simp only [apply, Solver.setBounds] at h
      split at h
      · exact change_callback h
      · exact change_callback h
      · obtain ⟨b, -, h⟩ := bind_eq_ok h
        exact change_callback h

end Setting

namespace Request

variable {κ : Type}

/-- What comes of a request: an answer if it was one for a minimisation. -/
abbrev Result := Except (Fault Float) (Option (Answer Float))

def perform (s : Solver Float κ) (w : World Float κ) : Request κ → Result × Solver Float κ × World Float κ
  | .set x =>
      match x.apply s with
      | .ok s => (.ok none, s, w)
      | .error why => (.error why, s, w)
  | .callback f => (.ok none, { s with callback := f }, w)
  | .minimize offer start config =>
      let (r, s, w) := s.minimize offer start (config.resolve s.options) w
      (r.map some, s, w)

/-- Whether a request was refused: a setting that failed, or a minimisation that was found invalid. -/
def refused : Request κ → Result → Bool
  | .set _, .error _ => true
  | .minimize _ _ _, .ok (some a) => a.status.reason.code = .invalidInput
  | _, _ => false

/-- Performs requests one after the other: what came of each, and what is left. -/
def performAll : List (Request κ) → Solver Float κ → World Float κ →
    List (Request κ × Result) × Solver Float κ × World Float κ
  | [], s, w => ([], s, w)
  | r :: rest, s, w =>
      let (a, s, w) := r.perform s w
      let (done, s, w) := performAll rest s w
      ((r, a) :: done, s, w)

/-- What of a history was not refused. -/
def kept (history : List (Request κ × Result)) : List (Request κ × Result) := history.filter fun q => !q.1.refused q.2

/-- A request of a client who does not read the records of what was refused. -/
def Blind : Request κ → Prop
  | .set _ => True
  | .callback f => Callback.Tandem World.Akin f f
  | .minimize offer _ _ => offer.Tandem World.Akin offer

end Request

namespace Solver

variable {α κ : Type} [Scalar α] {v : Solver α κ} {offer : Offer α (World α κ)} {start : Start α}
  {options : Except (Fault α) (Options α)} {w : World α κ} {a : Answer α}

theorem prepare_of_invalid (h : (v.minimize offer start options w).1 = .ok a)
    (hcode : a.status.reason.code = .invalidInput) : ∃ why, prepare options offer start = .error why := by
  cases hp : prepare options offer start with
  | error why => exact ⟨why, rfl⟩
  | ok p =>
      -- No run ends with this code.
      obtain ⟨k, m, c, r, hend, rfl, -⟩ := minimize_answer hp h
      rw [answer_status] at hcode
      exact absurd hcode (Run.after_code hend)

theorem minimize_of_invalid (h : (v.minimize offer start options w).1 = .ok a)
    (hcode : a.status.reason.code = .invalidInput) : (v.minimize offer start options w).2.1 = v ∧
      w.Akin (v.minimize offer start options w).2.2 := by
  obtain ⟨why, hp⟩ := prepare_of_invalid h hcode
  rw [minimize, hp]
  split
  · exact ⟨rfl, .refl w⟩
  · cases why with
    | invalid why =>
        refine ⟨rfl, ?_⟩
        dsimp only [reject]
        split
        · exact .refl w
        · exact ⟨Log.spared_emit_rejected _ _ _ _, rfl, rfl, rfl⟩
        · exact ⟨Log.spared_emit_rejected _ _ _ _, rfl, rfl, rfl⟩
    | _ => exact ⟨rfl, .refl w⟩

omit [Scalar α] in
theorem serving_self {u : Solver α κ} {c : Option (Callback α κ)} (h : u.callback = c) : u.serving c = u := by
  subst h
  rfl

theorem minimize_callback : (v.minimize offer start options w).2.1.callback = v.callback := by
  rw [minimize]
  split
  · rfl
  · split
    · rw [solve_eq]
      simp only [closed]
      split <;> rfl
    · rfl
    · rfl

end Solver

namespace Request

variable {κ : Type} {s : Solver Float κ} {w w' : World Float κ} {r : Request κ}

/-- A client who does not read the records of refused calls does not come to read them. -/
theorem perform_blind (hr : r.Blind) (hc : Callback.Tandem World.Akin s.callback s.callback) :
    Callback.Tandem World.Akin (r.perform s w).2.1.callback (r.perform s w).2.1.callback := by
  cases r with
  | set x =>
      simp only [perform]
      split
      · rename_i s' h
        rwa [Setting.apply_callback h]
      · exact hc
  | callback f => exact hr
  | minimize offer start config =>
      have hcallback : (Request.perform s w (.minimize offer start config)).2.1.callback = s.callback :=
        Solver.minimize_callback
      rwa [hcallback]

/-- In worlds that differ in such records a request comes to the same. -/
theorem perform_akin (hr : r.Blind) (hc : Callback.Tandem World.Akin s.callback s.callback) (h : w.Akin w') :
    (r.perform s w').1 = (r.perform s w).1 ∧ (r.perform s w').2.1 = (r.perform s w).2.1 ∧
      (r.perform s w).2.2.Akin (r.perform s w').2.2 := by
  cases r with
  | set x =>
      simp only [perform]
      split <;> exact ⟨rfl, rfl, h⟩
  | callback f => exact ⟨rfl, rfl, h⟩
  | minimize offer start config =>
      obtain ⟨hanswer, hsolver, hworld⟩ :=
        Solver.minimize_level World.Akin.bond hc hr start (config.resolve s.options) h
      exact ⟨congrArg (Except.map some) hanswer, hsolver.trans (Solver.serving_self Solver.minimize_callback), hworld⟩

theorem perform_refused (h : r.refused (r.perform s w).1 = true) :
    (r.perform s w).2.1 = s ∧ w.Akin (r.perform s w).2.2 := by
  cases r with
  | set x =>
      simp only [perform] at h ⊢
      split at h
      · cases h
      · exact ⟨rfl, .refl w⟩
  | callback f => cases h
  | minimize offer start config =>
      simp only [perform] at h ⊢
      cases ha : (s.minimize offer start (config.resolve s.options) w).1 with
      | error why =>
          rw [ha] at h
          cases h
      | ok a =>
          rw [ha] at h
          exact Solver.minimize_of_invalid ha (of_decide_eq_true h)

/-- Without what was refused of a history, the rest goes as it went. -/
theorem performAll_kept {rs : List (Request κ)} (hr : ∀ r ∈ rs, r.Blind)
    (hc : Callback.Tandem World.Akin s.callback s.callback) (h : w.Akin w') :
    (performAll ((kept (performAll rs s w).1).map Prod.fst) s w').1 = kept (performAll rs s w).1 ∧
      (performAll ((kept (performAll rs s w).1).map Prod.fst) s w').2.1 = (performAll rs s w).2.1 ∧
      (performAll rs s w).2.2.Akin (performAll ((kept (performAll rs s w).1).map Prod.fst) s w').2.2 := by
  induction rs generalizing s w w' with
  | nil => exact ⟨rfl, rfl, h⟩
  | cons r rest ih =>
      have hrest := fun q hq => hr q (List.mem_cons_of_mem r hq)
      have hc' := perform_blind (w := w) (hr r List.mem_cons_self) hc
      cases hout : r.refused (r.perform s w).1 with
      | true =>
          obtain ⟨hsame, hakin⟩ := perform_refused hout
          have hkept : kept (performAll (r :: rest) s w).1 = kept (performAll rest s (r.perform s w).2.2).1 := by
            simp [performAll, kept, hout, hsame]
          have hleft : (performAll (r :: rest) s w).2 = (performAll rest s (r.perform s w).2.2).2 := by
            simp only [performAll, hsame]
          rw [hkept, hleft]
          -- The run without the request goes on from where it was, in a world that has one record less at most.
          exact ih hrest hc (hakin.symm.trans h)
      | false =>
          obtain ⟨hresult, hsolver, hworld⟩ := perform_akin (hr r List.mem_cons_self) hc h
          have hkept : kept (performAll (r :: rest) s w).1 =
              (r, (r.perform s w).1) :: kept (performAll rest (r.perform s w).2.1 (r.perform s w).2.2).1 := by
            simp [performAll, kept, hout]
          obtain ⟨hdone, hlast, hleft⟩ := ih hrest hc' hworld
          rw [hkept]
          simp only [List.map_cons, performAll, hresult, hsolver]
          exact ⟨congrArg _ hdone, hlast, hleft⟩

/-- Refused requests leave no trace. Without them every other request comes to the same, and what is left of the solver
is the same; the objective of a minimisation that is refused is not called. A minimisation by the solver that runs is
refused, and an objective that asks for some on the way changes nothing. -/
theorem refused_traceless (κ : Type) :
    (∀ (s : Solver Float κ) (w : World Float κ) (rs : List (Request κ)),
      Callback.Tandem World.Akin s.callback s.callback → (∀ r ∈ rs, r.Blind) →
        let whole := performAll rs s w
        let rest := performAll ((kept whole.1).map Prod.fst) s w
        rest.1 = kept whole.1 ∧ rest.2.1 = whole.2.1 ∧ whole.2.2.Akin rest.2.2) ∧
    (∀ (s : Solver Float κ) (w : World Float κ) (offer : Offer Float (World Float κ)) (start : Start Float)
      (options : Except (Fault Float) (Options Float)) (a : Answer Float),
      (s.minimize offer start options w).1 = .ok a → a.status.reason.code = .invalidInput →
        s.calls offer start options w = []) ∧
    (∀ (s u : Solver Float κ) (w : World Float κ) (offer : Offer Float (World Float κ)) (start : Start Float)
      (options : Except (Fault Float) (Options Float)),
      u.id = s.id → w.isRunning s.id = true → u.minimize offer start options w = (.error .reentered, u, w)) ∧
    ∀ (s u : Solver Float κ) (w : World Float κ) (before after : Tensor Float → World Float κ → List (Inner Float κ))
      (offer : Offer Float (World Float κ)) (start : Start Float) (options : Except (Fault Float) (Options Float)),
      u.id = s.id → offer.Keeps s.id →
      (∀ r {w}, w.isRunning s.id = true → (Callback.shown s.callback r w).2.isRunning s.id = true) →
        s.minimize (u.nestingOffer before after offer) start options w = s.minimize offer start options w := by
  refine ⟨fun s w rs hc hr => performAll_kept hr hc (.refl w), fun s w offer start options a ha hcode => ?_,
    fun s u w offer start options hu hrun => ?_, fun s u w before after offer start options hu hkeeps hc => ?_⟩
  · obtain ⟨why, hp⟩ := Solver.prepare_of_invalid ha hcode
    exact Solver.calls_of_error why hp
  · exact Solver.minimize_of_running (hu ▸ hrun) offer start options
  · exact Solver.minimize_nesting hu hkeeps hc start options w

def doubled : Callable Float (World Float Unit) (Float × Tensor Float) := fun x w =>
  (.answer (x.entries.headD 0, x), w)

def plain : Solver Float Unit := { id := 0, options := .standard }

/-- Two requests that are refused, with one between them that is not. -/
def mixed : List (Request Unit) :=
  [.set (.number "f_tolerance" .null), .callback none, .minimize (.other "str") (.array [1] [1.0]) (.given .null)]

theorem mixed_blind : ∀ r ∈ mixed, r.Blind := by
  intro r hr
  simp only [mixed, List.mem_cons, List.not_mem_nil, or_false] at hr
  rcases hr with rfl | rfl | rfl
  · exact trivial
  · exact fun _ _ _ h => ⟨rfl, h⟩
  · exact .refused rfl rfl

theorem refused_traceless_mixed :
    kept (performAll mixed plain { session := {}, client := () }).1 = [(.callback none, .ok none)] ∧
      (performAll [.callback none] plain { session := {}, client := () }).2.1 =
        (performAll mixed plain { session := {}, client := () }).2.1 ∧
      plain.calls (.other "str") (.array [1] [1.0]) (.ok .standard) { session := {}, client := () } = [] ∧
      plain.minimize (.function doubled) (.array [1] [1.0]) (.ok .standard)
        { session := { running := [(0, .silent)] }, client := () } =
          (.error .reentered, plain, { session := { running := [(0, .silent)] }, client := () }) ∧
      plain.minimize (plain.nestingOffer (fun _ _ => [⟨.function doubled, .array [1] [1.0], .ok .standard⟩])
        (fun _ _ => []) (.function doubled)) (.array [1] [1.0]) (.ok .standard) { session := {}, client := () } =
          plain.minimize (.function doubled) (.array [1] [1.0]) (.ok .standard) { session := {}, client := () } := by
  obtain ⟨htraceless, huncalled, hrefused, hnested⟩ := refused_traceless Unit
  have hkept : kept (performAll mixed plain { session := {}, client := () }).1 = [(.callback none, .ok none)] := rfl
  obtain ⟨-, hsolver, -⟩ := htraceless plain { session := {}, client := () } mixed (fun _ _ _ h => ⟨rfl, h⟩) mixed_blind
  rw [hkept] at hsolver
  refine ⟨hkept, hsolver, huncalled plain _ _ _ _ _ rfl rfl, hrefused plain plain _ _ _ _ rfl rfl, ?_⟩
  exact hnested plain plain _ _ _ _ _ _ rfl (fun _ _ h => h) fun _ _ h => h

end Request

end BoxBfgs
