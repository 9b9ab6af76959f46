import BoxBfgs.Proofs.Run.Checks
import BoxBfgs.Proofs.Translation.Bounds
import BoxBfgs.Proofs.Translation.Path

namespace BoxBfgs

/-- How far each coordinate is moved, and how far the values are lifted. -/
structure Translation where
  offset : Nat → ℝ
  height : ℝ

namespace Translation

variable (a : Translation)

noncomputable def back : Translation := { offset := fun i => -a.offset i, height := -a.height }

noncomputable def vec (n : Nat) : Vector ℝ n := .ofFn fun i => a.offset i

noncomputable def entries (l : List ℝ) : List ℝ := l.mapIdx fun i x => x + a.offset i

theorem toList_add (n : Nat) (x : Vector ℝ n) : (x + a.vec n).toList = a.entries x.toList := by
  refine List.ext_getElem (by simp [entries]) fun i h h' => ?_
  simp [entries, vec]

theorem entries_back (l : List ℝ) : a.back.entries (a.entries l) = l := by
  refine List.ext_getElem (by simp [entries]) fun i h h' => ?_
  simp [entries, back]

noncomputable def drift : Drift ℝ where
  value v := v + a.height
  sub_value _ _ := add_sub_add_right_eq_sub _ _ _
  value_add _ _ := add_right_comm _ _ _
  value_sub _ _ := add_sub_right_comm _ _ _
  value_lt _ _ := add_lt_add_iff_right _
  value_le _ _ := add_le_add_iff_right _
  isFinite_value _ := rfl
  entries := a.entries
  entries_nil := rfl

noncomputable def motion (n : Nat) : Motion ℝ n where
  toDrift := a.drift
  point x := x + a.vec n
  toList_point := a.toList_add n
  point_sub_point x y := Vec.ext_get (by simp only [Vec.get_sub, Vec.get_add]; abel)

theorem record_back (r : Record ℝ) : a.back.drift.record (a.drift.record r) = r := by
  have hx : a.back.drift.entries (a.drift.entries r.x) = r.x := a.entries_back r.x
  have hf : a.back.drift.value (a.drift.value r.f) = r.f := add_neg_cancel_right _ _
  simp only [Drift.record, hx, hf]

/-- The client of the moved problem is the same, and the iterates that were shown have moved. -/
def Alike {κ : Type} (c c' : Heard ℝ κ) : Prop := c'.1 = c.1 ∧ c'.2 = c.2.map a.drift.record

end Translation

section

variable {κ β : Type} (a : Translation)

/-- A function of the point moved back, whose answers are lifted. -/
noncomputable def Callable.translated (lift : β → β) (f : Callable ℝ κ β) : Callable ℝ κ β := fun x c =>
  let (r, c) := f { x with entries := a.back.entries x.entries } c
  (r.map lift, c)

/-- A listener who is told of the iterates moved back. -/
noncomputable def Listener.translated (f : Listener ℝ κ) : Listener ℝ κ := fun r c => f (a.back.drift.record r) c

/-- The objective `x ↦ F (x - a) + c` with the gradient at `x - a`. -/
noncomputable def Objective.translated : Objective ℝ κ → Objective ℝ κ
  | .combined f => .combined (f.translated a (Prod.map a.drift.value id))
  | .split v g => .split (v.translated a a.drift.value) (g.translated a id)
  | .custom name f => .custom name (f.translated a (Prod.map a.drift.value id))

noncomputable def Offer.translated : Offer ℝ κ → Offer ℝ κ
  | .objective name f => .objective name (f.translated a (Prod.map a.drift.value id))
  | .object sort v g => .object sort (v.map (Callable.translated a a.drift.value)) (g.map (Callable.translated a id))
  | .pair v g => .pair (v.map (Callable.translated a a.drift.value)) (g.map (Callable.translated a id))
  | .function f => .function (f.translated a (Prod.map a.drift.value id))
  | .other sort => .other sort

/-- The same options with bounds that move along. -/
noncomputable def Options.translated (o : Options ℝ) : Options ℝ :=
  { o with bounds := o.bounds.map fun b => ⟨b.1, b.2.shift (a.vec b.1)⟩ }

/-- The same solver, as if its last run had been on a moved problem. -/
noncomputable def Solver.translated (v : Solver ℝ κ) : Solver ℝ κ := { v with history := v.history.map a.drift.record }

theorem Offer.adapt_translated (offer : Offer ℝ κ) :
    (offer.translated a).adapt = offer.adapt.map (Objective.translated a) := by
  cases offer with
  | objective | function | other => rfl
  | object sort v g | pair v g => cases v <;> cases g <;> rfl

/-- The moved options are in order as well: limits and kinds make up the moved bounds. -/
theorem Options.Checked.translated {o : Options ℝ} (h : o.Checked) : (o.translated a).Checked where
  depth := h.depth
  fTolerance := h.fTolerance
  gTolerance := h.gTolerance
  wolfe := h.wolfe
  width := h.width
  bounds n b hb := by
    obtain ⟨c, hc, he⟩ := Option.map_eq_some_iff.mp hb
    cases he
    exact (h.bounds _ _ hc).shift _

/-- At a moved point the moved objective gives the lifted value and the same gradient. -/
theorem Objective.call_translated {n : Nat} (o : Objective ℝ κ) (x : Vector ℝ n) (c : κ) :
    (o.translated a).call (.ofVector (x + a.vec n)) c =
      ((o.call (.ofVector x) c).1.map (Prod.map a.drift.value id), (o.call (.ofVector x) c).2) := by
  have hback : ({ Tensor.ofVector (x + a.vec n) with
      entries := a.back.entries (Tensor.ofVector (x + a.vec n)).entries } : Tensor ℝ) = .ofVector x := by
    have hentries : a.back.entries (x + a.vec n).toList = x.toList := by rw [a.toList_add, a.entries_back]
    exact congrArg (Tensor.mk [n]) hentries
  cases o with
  | combined f | custom name f => simp only [translated, call, Callable.translated, hback]
  | split v g =>
      simp only [translated, call, Callable.translated, hback]
      rcases v (.ofVector x) c with ⟨_ | _ | _ | _, c'⟩
      · dsimp only [Reply.map]
        rcases g (.ofVector x) c' with ⟨_ | _ | _ | _, c''⟩ <;> rfl
      · rfl
      · rfl
      · rfl

end

namespace Run

variable {κ : Type} {n : Nat} (a : Translation)

/-- The setup of a run of what a client offers. -/
def offered (id : Nat) (g : Objective ℝ κ) (f : Option (Listener ℝ κ)) (o : Options ℝ) (b : Bounds ℝ n)
    (x : Vector ℝ n) : Setup ℝ (Heard ℝ κ) n :=
  { id, objective := g.heard, callback := f.map Listener.heard, options := o, bounds := b, start := x }

noncomputable def offeredAway (id : Nat) (g : Objective ℝ κ) (f : Option (Listener ℝ κ)) (o : Options ℝ)
    (b : Bounds ℝ n) (x : Vector ℝ n) : Setup ℝ (Heard ℝ κ) n :=
  offered id (g.translated a) (f.map (Listener.translated a)) (o.translated a) (b.shift (a.vec n)) (x + a.vec n)

variable {id : Nat} {g : Objective ℝ κ} {f : Option (Listener ℝ κ)} {o : Options ℝ} {b : Bounds ℝ n} {x : Vector ℝ n}

theorem moves_translated (hb : b.toBox.Proper) (d : Bool) :
    Moves (a.motion n) a.Alike d d (offered id g f o b x) (offeredAway a id g f o b x) where
  call y w w' hw := by
    obtain ⟨⟨hclient, hrecords⟩, hd, hd'⟩ := hw
    have hpoint : (a.motion n).point y = y + a.vec n := rfl
    simp only [offered, offeredAway, Objective.call_heard, hpoint, hclient, Objective.call_translated]
    exact ⟨rfl, ⟨rfl, hrecords⟩, hd, hd'⟩
  callback := by
    cases f with
    | none => exact .none
    | some f =>
        refine .some fun r w w' hw => ?_
        obtain ⟨⟨hclient, hrecords⟩, hd, hd'⟩ := hw
        have hr : a.back.drift.record ((a.motion n).record r) = r := a.record_back r
        simp only [Listener.heard, Listener.translated, hr, hclient, true_and]
        refine ⟨⟨rfl, ?_⟩, hd, hd'⟩
        rw [hrecords, List.map_append, List.map_singleton]
        rfl
  start := rfl
  line := rfl
  evaluations := rfl
  unconstrained := rfl
  boxed := rfl
  norm y g := Box.projectedGradientNorm_shift _ _ _ hb
  trial y e t := by
    have hmoved : y + a.vec n + Vec.scale t e = y + Vec.scale t e + a.vec n :=
      Vec.ext_get (by simp only [Vec.get_add]; abel)
    have hproject := b.toBox.project_shift (y + Vec.scale t e) (a.vec n) hb
    change (if b.unconstrained then y + a.vec n + Vec.scale t e else
      (b.toBox.shift (a.vec n)).project (y + a.vec n + Vec.scale t e)) =
        (if b.unconstrained then y + Vec.scale t e else b.project (y + Vec.scale t e)) + a.vec n
    rw [hmoved, hproject]
    exact (apply_ite (fun z => z + a.vec n) _ _ _).symm
  longest y e := by
    change (if b.unconstrained then Box.bigStep else (b.toBox.shift (a.vec n)).maxStep (y + a.vec n) e Box.bigStep) =
      if b.unconstrained then Box.bigStep else b.maxStep y e Box.bigStep
    rw [Box.maxStep_shift]
  cauchy m y g := Cauchy.point_shift hb m y g (a.vec n)
  subspace m y g c := Subspace.minimize_shift (a.vec n) hb m y g c

theorem relativeDecrease_nonpos {previous f : ℝ} : relativeDecrease previous f ≤ 0 ↔ previous ≤ f := by
  have hpos : 0 < max (max |previous| |f|) 1 := one_pos.trans_le (le_max_right _ _)
  rw [relativeDecrease, Scalar.greatest_real, Scalar.greatest_real, Scalar.abs_real, Scalar.abs_real,
    div_le_iff₀ hpos, zero_mul, sub_nonpos]

/-- The tests for the end come to the same where none of them compares a decrease with the values. -/
theorem reason?_translated {it : Iterate ℝ n} {norm : ℝ} {p p' : Progress ℝ n} {kept : Prop} (ho : o.fTolerance = 0)
    (hp : Even (a.motion n) kept p p') :
    reason? (offeredAway a id g f o b x) ((a.motion n).iterate it) norm p' =
      reason? (offered id g f o b x) it norm p := by
  have hexhausted : ((a.motion n).evaluator p.evaluator).exhausted = p.evaluator.exhausted := rfl
  have hdecrease (v : ℝ) : relativeDecrease ((a.motion n).value v) ((a.motion n).iterate it).point.f ≤ 0 ↔
      relativeDecrease v it.point.f ≤ 0 := by
    rw [relativeDecrease_nonpos, relativeDecrease_nonpos]
    exact (a.motion n).value_le _ _
  have hprevious : ((a.motion n).iterate it).previous = it.previous.map (a.motion n).value := rfl
  simp only [reason?, offeredAway, offered, Options.translated, ho, hp.iterations, hp.evaluator, hexhausted, gt_iff_lt,
    lt_self_iff_false, decide_false, Bool.false_and, Bool.false_eq_true, if_false, hprevious]
  cases it.previous with
  | none => rfl
  | some v =>
      simp only [Option.map_some, Option.bind_some, hdecrease]
      rfl

theorem Regular.translated {it : Iterate ℝ n} (h : Regular (offered id g f o b x) it) :
    Regular (offeredAway a id g f o b x) ((a.motion n).iterate it) where
  sound := h.sound
  roomy := h.roomy
  inside := (Box.inside_shift (a.vec n)).mpr h.inside

theorem Regular.sameVerdict {it : Iterate ℝ n} (h : Regular (offered id g f o b x) it) (ho : o.fTolerance = 0)
    (d : Bool) :
    SameVerdict (a.motion n) d d (offered id g f o b x) (offeredAway a id g f o b x) it where
  inspected := by rw [h.inspected, (h.translated a).inspected]
  reason _ _ _ hp := reason?_translated a ho hp

end Run

namespace Solver

variable {κ : Type}

/-- Where a start in numbers leads to. -/
theorem place_vector {α κ : Type} [Scalar α] {n : Nat} (f : Objective α (World α κ)) (o : Options α) (shape : List Nat)
    (x : Vector α n) : place f o (.array shape x.toList) =
      if shape.length ≠ 1 || x.toList.isEmpty then refuse (.shape shape)
      else if !x.toList.all Scalar.isFinite then refuse .nonFinite
      else
        match o.bounds with
        | none => .ok ⟨n, f, o, .free n, (Bounds.free n).project x⟩
        | some ⟨k, b⟩ =>
            if h : k = n then .ok ⟨n, f, o, h ▸ b, (h ▸ b : Bounds α n).project x⟩ else refuse (.dimension k n) := by
  obtain ⟨⟨l⟩, rfl⟩ := x
  rfl

/-- A moved start is refused like the other one, or leads to the moved problem. -/
theorem place_translated (a : Translation) (f f' : Objective ℝ (World ℝ κ)) (o : Options ℝ) (start : Start ℝ) :
    (∃ why, place f o start = .error why ∧ place f' (o.translated a) (a.drift.start start) = .error why) ∨
      ∃ (n : Nat) (b : Bounds ℝ n) (x : Vector ℝ n), place f o start = .ok ⟨n, f, o, b, b.project x⟩ ∧
        place f' (o.translated a) (a.drift.start start) =
          .ok ⟨n, f', o.translated a, b.shift (a.vec n), (b.shift (a.vec n)).project (x + a.vec n)⟩ := by
  cases start with
  | unreadable why =>
      refine .inl ?_
      cases why with
      | _ => exact ⟨_, rfl, rfl⟩
  | array shape entries =>
      obtain ⟨n, x, rfl⟩ : ∃ (n : Nat) (x : Vector ℝ n), entries = x.toList := ⟨_, Vec.ofList entries, rfl⟩
      have hstart : a.drift.start (.array shape x.toList) = .array shape (x + a.vec n).toList :=
        congrArg (Start.array shape) (a.toList_add n x).symm
      have hempty : (x + a.vec n).toList.isEmpty = x.toList.isEmpty := by
        rw [Bool.eq_iff_iff, List.isEmpty_iff, List.isEmpty_iff, a.toList_add, Translation.entries,
          List.mapIdx_eq_nil_iff]
      have hbounds : (o.translated a).bounds = o.bounds.map fun b => ⟨b.1, b.2.shift (a.vec b.1)⟩ := rfl
      have hfinite (l : List ℝ) : l.all Scalar.isFinite = true := List.all_eq_true.mpr fun _ _ => rfl
      rw [hstart, place_vector, place_vector, hempty, hbounds, hfinite, hfinite]
      split
      · exact .inl ⟨_, rfl, rfl⟩
      · cases o.bounds with
        | none =>
            refine .inr ⟨n, .free n, x, rfl, ?_⟩
            rw [Bounds.shift_free]
            rfl
        | some b =>
            obtain ⟨k, b⟩ := b
            by_cases hk : k = n
            · subst hk
              exact .inr ⟨k, b, x, by simp, by simp⟩
            · exact .inl ⟨.invalid (.start (.dimension k n)), by simp [hk, refuse], by simp [hk, refuse]⟩

theorem prepare_translated (a : Translation) (offer : Offer ℝ κ) (o : Options ℝ) (start : Start ℝ) :
    (∃ why, prepare (.ok o) offer.heard start = .error why ∧
      prepare (.ok (o.translated a)) (offer.translated a).heard (a.drift.start start) = .error why) ∨
      ∃ (g : Objective ℝ κ) (n : Nat) (b : Bounds ℝ n) (x : Vector ℝ n),
        prepare (.ok o) offer.heard start = .ok ⟨n, g.heard, o, b, b.project x⟩ ∧
        prepare (.ok (o.translated a)) (offer.translated a).heard (a.drift.start start) =
          .ok ⟨n, (g.translated a).heard, o.translated a, b.shift (a.vec n),
            (b.shift (a.vec n)).project (x + a.vec n)⟩ := by
  simp only [prepare, Except.bind, Offer.adapt_heard, Offer.adapt_translated]
  cases offer.adapt with
  | error why => exact .inl ⟨why, rfl, rfl⟩
  | ok g =>
      rcases place_translated a g.heard (g.translated a).heard o start with ⟨why, hp, hp'⟩ | ⟨n, b, x, hp, hp'⟩
      · exact .inl ⟨why, hp, hp'⟩
      · exact .inr ⟨g, n, b, x, hp, hp'⟩

/-- Minimisation moves with the problem where the decreases are not compared with the values: the answer, the iterates
that are shown and those that are kept are the same ones, moved. -/
theorem minimize_translates (a : Translation) (v : Solver ℝ κ) (f : Option (Listener ℝ κ)) (offer : Offer ℝ κ)
    (start : Start ℝ) {o : Options ℝ} (ho : o.Checked) (htol : o.fTolerance = 0) (w : World ℝ κ) :
    (o.translated a).Checked ∧
      Agree a.drift a.Alike True ((v.heard f).minimize offer.heard start (.ok o) w.heard)
        (((v.translated a).heard (f.map (Listener.translated a))).minimize (offer.translated a).heard
          (a.drift.start start) (.ok (o.translated a)) w.heard) := by
  have hbefore : Agree a.drift a.Alike True (.error .reentered, v.heard f, w.heard)
      (.error .reentered, (v.translated a).heard (f.map (Listener.translated a)), w.heard) :=
    ⟨rfl, rfl, rfl, fun _ => rfl, rfl, rfl⟩
  refine ⟨ho.translated a, minimize_agree hbefore rfl ?_⟩
  rcases prepare_translated a offer o start with hrefused | ⟨g, n, b, x, hp, hp'⟩
  · exact .inl hrefused
  · refine .inr ⟨_, _, hp, hp', ?_⟩
    have hs := prepare_checked (v.heard f) ho hp
    have hb : b.toBox.Proper := hs.bounds.proper
    have hmoves : Moves (a.motion n) a.Alike w.session.debug w.session.debug
        ((v.heard f).toSetup ⟨n, g.heard, o, b, b.project x⟩)
        (((v.translated a).heard (f.map (Listener.translated a))).toSetup
          ⟨n, (g.translated a).heard, o.translated a, b.shift (a.vec n), b.project x + a.vec n⟩) :=
      Run.moves_translated a hb _
    have hw : Beside a.Alike w.session.debug w.session.debug w.heard w.heard := ⟨⟨rfl, rfl⟩, rfl, rfl⟩
    have hagree := solve_agree hmoves rfl rfl hw fun k it hcheck =>
      (Run.after_regular hs (Memory.renew_roomy _ _ hs.options.depth.1) hcheck).sameVerdict a htol _
    rw [Bounds.toBox_shift, Box.project_shift _ _ hb]
    exact { hagree with history := fun _ => hagree.history rfl }

/-- The square over a box, without a tolerance for its decreases. -/
noncomputable def plainOptions : Options ℝ := { boxedOptions with fTolerance := 0 }

theorem plainOptions_checked : plainOptions.Checked where
  depth := boxedOptions_checked.depth
  fTolerance := le_rfl
  gTolerance := boxedOptions_checked.gTolerance
  wolfe := boxedOptions_checked.wolfe
  width := boxedOptions_checked.width
  bounds := boxedOptions_checked.bounds

/-- Three to the right and seven up. -/
noncomputable def rightUp : Translation := { offset := fun _ => 3, height := 7 }

theorem minimize_translates_square : plainOptions.Checked ∧ plainOptions.fTolerance = 0 ∧
    prepare (.ok plainOptions) (Offer.heard (.function clientSquare)) (.array [1] [1]) =
      .ok ⟨1, .combined clientSquare.heard, plainOptions, unitBox, unitBox.project #v[1]⟩ ∧
    rightUp.drift.start (.array [1] [1]) = .array [1] [4] ∧
    (((squareSolver.translated rightUp).heard none).minimize
        (Offer.translated rightUp (.function clientSquare)).heard (rightUp.drift.start (.array [1] [1]))
        (.ok (plainOptions.translated rightUp)) heardWorld).1 =
      ((squareSolver.heard none).minimize (Offer.heard (.function clientSquare)) (.array [1] [1]) (.ok plainOptions)
        heardWorld).1.map rightUp.drift.answer := by
  have hstart : rightUp.drift.start (.array [1] [1]) = .array [1] [4] := by
    have hentries : [(1 : ℝ)].mapIdx (fun _ x => x + 3) = [4] := by norm_num
    exact congrArg (Start.array [1]) hentries
  exact ⟨plainOptions_checked, rfl, rfl, hstart, (minimize_translates rightUp squareSolver none (.function clientSquare)
    (.array [1] [1]) plainOptions_checked rfl { session := {}, client := () }).2.answer⟩

end Solver

end BoxBfgs
