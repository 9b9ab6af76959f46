import BoxBfgs.Options
import BoxBfgs.Proofs.Double

namespace BoxBfgs

namespace Cap

def AtLeast (least : Int) : Cap → Prop
  | .flag b => least ≤ b.toNat
  | .whole i => least ≤ i
  | .real a => Float.ofInt least ≤ a

def IsNaN (c : Cap) : Prop := ∃ a : Float, c = .real a ∧ a.isNaN = true

/-- What is not below a number need not be a number itself. -/
theorem atLeast_or_isNaN {c : Cap} {least : Int} (hn : (Float.ofInt least).isNaN = false) (h : c.less least = false) :
    c.AtLeast least ∨ c.IsNaN := by
  cases c with
  | flag b => exact .inl (not_lt.mp (of_decide_eq_false h))
  | whole i => exact .inl (not_lt.mp (of_decide_eq_false h))
  | real a =>
      cases ha : a.isNaN with
      | true => exact .inr ⟨a, rfl, ha⟩
      | false => exact .inl (Double.le_of_not_lt hn ha (of_decide_eq_false h))

end Cap

namespace Value

def IsNumber : Value → Prop
  | .flag _ | .whole _ | .real _ => True
  | .null | .text _ | .list _ | .table _ | .bounds _ => False

theorem mem_of_field? {fields : List (String × Value)} {name : String} {v : Value}
    (h : field? fields name = some v) : (name, v) ∈ fields := by
  obtain ⟨f, hf, rfl⟩ := Option.map_eq_some_iff.mp h
  have hname := List.find?_some hf
  rw [← eq_of_beq hname]
  exact List.mem_reverse.mp (List.mem_of_find?_eq_some hf)

theorem exists_comparable {v : Value} (h : v.IsNumber) : ∃ a, v.comparable = .ok a := by
  cases v with
  | flag | whole | real => exact ⟨_, rfl⟩
  | null | text | list | table | bounds => cases h

theorem truncate_unbounded {a : Float} (h : truncate a = .error .unbounded) : a.isFinite = false ∧ a.isNaN = false := by
  rw [truncate] at h
  split at h
  · cases h
  · rename_i hnone
    split at h
    · cases h
    · rename_i hn
      refine ⟨Double.isFinite_of_exponent ?_, Bool.eq_false_of_not_eq_true hn⟩
      rw [Binary.ofFloat?] at hnone
      split_ifs at hnone with hfield
      exact hfield

theorem integer_unbounded {v : Value} (hv : v.IsNumber) (h : v.integer = .error .unbounded) :
    ∃ a : Float, v = .real a ∧ a.isFinite = false ∧ a.isNaN = false := by
  cases v with
  | flag | whole => cases h
  | real a => exact ⟨a, rfl, truncate_unbounded h⟩
  | null | text | list | table | bounds => cases hv

theorem integer_ne_unfit {v : Value} (hv : v.IsNumber) : v.integer ≠ .error .unfit := by
  intro h
  cases v with
  | flag | whole => cases h
  | real a =>
      rw [integer, truncate] at h
      split at h
      · cases h
      · split at h <;> cases h
  | null | text | list | table | bounds => cases hv

theorem le_nearestBelow {i : Int} (h : 0.0 ≤ nearest i) : 0.0 ≤ nearestBelow i := by
  rw [nearestBelow]
  split
  · rename_i hbelow
    exact Double.le_pred (of_decide_eq_true ((Bool.and_eq_true _ _).mp hbelow).1)
  · exact h

end Value

namespace Options

/-- Whether a number is given that is beyond all doubles where one is needed, or beyond all integers for a rank. -/
def Oversized (given : List (String × Value)) : Prop :=
  (∃ name i, (name = "f_tolerance" ∨ name = "g_tolerance") ∧ Value.field? given name = some (.whole i) ∧
    Value.intLimit ≤ i.natAbs) ∨
  ∃ a, Value.field? given "printing" = some (.real a) ∧ a.isFinite = false ∧ a.isNaN = false

/-- Whether what is no number is given for a cap. -/
def Uncapped (given : List (String × Value)) : Prop :=
  ∃ name a, (name = "max_iterations" ∨ name = "max_evaluations" ∨ name = "max_linesearch_evaluations") ∧
    Value.field? given name = some (.real a) ∧ a.isNaN = true

/-- Options in their ranges. A cap need not be a number if `lax` holds. -/
structure Ranged (lax : Prop) (o : Options Float) : Prop where
  depth : 1 ≤ o.depth ∧ o.depth ≤ 17
  fTolerance : 0.0 ≤ o.fTolerance
  gTolerance : 0.0 ≤ o.gTolerance ∧ 0.0 ≤ o.gTold
  iterations : o.iterations.AtLeast 0 ∨ lax ∧ o.iterations.IsNaN
  evaluations : o.evaluations.AtLeast 1 ∨ lax ∧ o.evaluations.IsNaN
  searchEvaluations : o.searchEvaluations.AtLeast 1 ∨ lax ∧ o.searchEvaluations.IsNaN
  wolfe : 0.0 < o.c1 ∧ o.c1 < o.c2 ∧ o.c2 < 1.0
  width : 0.0 ≤ o.width ∧ o.width < 1.0

theorem standard_ranged (lax : Prop) : (standard : Options Float).Ranged lax where
  depth := by decide
  fTolerance := of_decide_eq_true (by decide +kernel)
  gTolerance := ⟨of_decide_eq_true (by decide +kernel), of_decide_eq_true (by decide +kernel)⟩
  iterations := .inl (show (0 : Int) ≤ 100 by decide)
  evaluations := .inl (show (1 : Int) ≤ 1000 by decide)
  searchEvaluations := .inl (show (1 : Int) ≤ 20 by decide)
  wolfe := ⟨of_decide_eq_true (by decide +kernel), of_decide_eq_true (by decide +kernel),
    of_decide_eq_true (by decide +kernel)⟩
  width := ⟨of_decide_eq_true (by decide +kernel), of_decide_eq_true (by decide +kernel)⟩

/-- What comes of options: they are refused as invalid, a number is oversized, or the result is as it should be. -/
def Answers {β : Type} (given : List (String × Value)) (P : β → Prop) (r : Except (Fault Float) β) : Prop :=
  (∃ why, r = .error (.invalid (.option why))) ∨ (r = .error (.misread .unbounded) ∧ Oversized given) ∨
    ∃ b, r = .ok b ∧ P b

section

variable {given : List (String × Value)} {β γ : Type} {P : β → Prop} {Q : γ → Prop}

theorem Answers.invalid (why : OptionDefect) : Answers given P (Options.invalid why) := .inl ⟨why, rfl⟩

theorem Answers.ok {b : β} (h : P b) : Answers given P (.ok b) := .inr (.inr ⟨b, rfl, h⟩)

theorem Answers.bind {r : Except (Fault Float) β} {f : β → Except (Fault Float) γ} (hr : Answers given P r)
    (hf : ∀ b, P b → Answers given Q (f b)) : Answers given Q (r >>= f) := by
  rcases hr with ⟨why, rfl⟩ | ⟨rfl, hlarge⟩ | ⟨b, rfl, hb⟩
  · exact .inl ⟨why, rfl⟩
  · exact .inr (.inl ⟨rfl, hlarge⟩)
  · exact hf b hb

theorem Answers.mono {P' : β → Prop} {r : Except (Fault Float) β} (h : Answers given P r) (hP : ∀ {b}, P b → P' b) :
    Answers given P' r :=
  h.imp_right (Or.imp_right fun ⟨b, hb, hp⟩ => ⟨b, hb, hP hp⟩)

theorem readOr_answers {name : String} {old : β} {read : Value → Except (Fault Float) β}
    (hold : Value.field? given name = none → P old)
    (hread : ∀ v, Value.field? given name = some v → Answers given P (read v)) :
    Answers given P (readOr given name old read) := by
  rw [readOr]
  split
  · rename_i v hv
    exact hread v hv
  · rename_i hnone
    exact .ok (hold hnone)

end

section

variable {given : List (String × Value)} {v : Value}

theorem readDepth_answers (v : Value) : Answers given (fun d => 1 ≤ d ∧ d ≤ 17) (readDepth v) := by
  cases v with
  | whole i =>
      rw [readDepth]
      split
      · rename_i hrange
        obtain ⟨hleast, hmost⟩ := (Bool.and_eq_true _ _).mp hrange
        have hleast := of_decide_eq_true hleast
        have hmost := of_decide_eq_true hmost
        rw [Memory.maxDepth] at hmost
        exact .ok ⟨by omega, by omega⟩
      · exact .invalid _
  | null | flag | real | text | list | table | bounds => exact .invalid _

theorem readTolerance_answers {name : String} (hv : v.IsNumber) (hname : name = "f_tolerance" ∨ name = "g_tolerance")
    (hgiven : Value.field? given name = some v) :
    Answers given (fun a => 0.0 ≤ a ∧ ∀ i, v = .whole i → a = Value.nearest i) (readTolerance name v) := by
  have hcheck (a : Float) (hnearest : ∀ i, v = .whole i → a = Value.nearest i) :
      Answers given (fun a => 0.0 ≤ a ∧ ∀ i, v = .whole i → a = Value.nearest i)
        (if a.isNaN || a < 0.0 then Options.invalid (.negative name v) else .ok a) := by
    split
    · exact .invalid _
    · rename_i h
      obtain ⟨hn, hlt⟩ := Bool.or_eq_false_iff.mp (Bool.eq_false_of_not_eq_true h)
      exact .ok ⟨Double.le_of_not_lt (by decide +kernel) hn (of_decide_eq_false hlt), hnearest⟩
  cases v with
  | flag b => exact hcheck _ nofun
  | whole i =>
      rw [readTolerance.eq_2 name _ fun s hs => Value.noConfusion hs, Value.number]
      split
      · rename_i hi
        refine hcheck _ fun k hk => ?_
        cases hk
        rw [Value.nearest, if_pos hi]
      · rename_i hi
        exact .inr (.inl ⟨rfl, .inl ⟨name, i, hname, hgiven, not_lt.mp hi⟩⟩)
  | real a => exact hcheck a nofun
  | null | text | list | table | bounds => cases hv

theorem readCap_answers {least : Int} {why : OptionDefect} {lax : Prop} (hv : v.IsNumber)
    (hleast : (Float.ofInt least).isNaN = false) (hlax : ∀ a : Float, v = .real a → a.isNaN = true → lax) :
    Answers given (fun c => c.AtLeast least ∨ lax ∧ c.IsNaN) (readCap least why v) := by
  have hcheck (c : Cap) (hc : c.IsNaN → lax) :
      Answers given (fun c => c.AtLeast least ∨ lax ∧ c.IsNaN)
        (if c.less least then Options.invalid why else .ok c) := by
    split
    · exact .invalid _
    · rename_i hless
      have h := Cap.atLeast_or_isNaN hleast (Bool.eq_false_of_not_eq_true hless)
      exact .ok (h.imp_right fun hn => ⟨hc hn, hn⟩)
  cases v with
  | flag b => exact hcheck (.flag b) nofun
  | whole i => exact hcheck (.whole i) nofun
  | real a =>
      refine hcheck (.real a) ?_
      rintro ⟨c, hc, hn⟩
      cases hc
      exact hlax a rfl hn
  | null | text | list | table | bounds => cases hv

theorem readWolfe_answers {v w : Value} (hv : v.IsNumber) (hw : w.IsNumber) :
    Answers given (fun c => 0.0 < c.1 ∧ c.1 < c.2 ∧ c.2 < 1.0) (readWolfe v w) := by
  obtain ⟨c1, hc1⟩ := Value.exists_comparable hv
  obtain ⟨c2, hc2⟩ := Value.exists_comparable hw
  rw [readWolfe, hc1, hc2]
  show Answers given _ (if !(0.0 < c1) then _ else if c1 < c2 && c2 < 1.0 then _ else _)
  split
  · exact .invalid _
  · rename_i hpos
    split
    · rename_i h
      obtain ⟨hrising, hbelow⟩ := (Bool.and_eq_true _ _).mp h
      refine .ok ⟨?_, of_decide_eq_true hrising, of_decide_eq_true hbelow⟩
      simpa using hpos
    · exact .invalid _

theorem readWidth_answers (hv : v.IsNumber) : Answers given (fun a => 0.0 ≤ a ∧ a < 1.0) (readWidth v) := by
  obtain ⟨a, ha⟩ := Value.exists_comparable hv
  rw [readWidth, ha]
  show Answers given _ (if 0.0 ≤ a && a < 1.0 then _ else _)
  split
  · rename_i h
    obtain ⟨hle, hlt⟩ := (Bool.and_eq_true _ _).mp h
    exact .ok ⟨of_decide_eq_true hle, of_decide_eq_true hlt⟩
  · exact .invalid _

theorem readBounds_answers (hv : v.IsNumber) : Answers given (fun _ => True) (readBounds v) := by
  cases v with
  | flag | whole | real => exact .invalid _
  | null | text | list | table | bounds => cases hv

theorem readVerbosity_answers (hv : v.IsNumber) (hgiven : Value.field? given "printing" = some v) :
    Answers given (fun _ => True) (Verbosity.read v) := by
  have htext (s : String) (h : v = .text s) : False := by
    rw [h] at hv
    exact hv
  rw [Verbosity.read.eq_2 _ htext]
  split
  · split
    · exact .ok trivial
    · exact .invalid _
  · exact .invalid _
  · rename_i why hne hwhy
    cases why with
    | malformed => exact absurd rfl hne
    | unfit => exact absurd hwhy (Value.integer_ne_unfit hv)
    | unbounded =>
        obtain ⟨a, rfl, ha⟩ := Value.integer_unbounded hv hwhy
        exact .inr (.inl ⟨rfl, .inr ⟨a, hgiven, ha⟩⟩)

section

variable {o : Options Float} {lax : Prop} (hgiven : ∀ f ∈ given, f.2.IsNumber)

include hgiven

theorem isNumber_getD (name : String) (old : Float) : ((Value.field? given name).getD (.real old)).IsNumber := by
  cases h : Value.field? given name with
  | none => trivial
  | some v => exact hgiven _ (Value.mem_of_field? h)

theorem readOr_cap_answers {name : String} {least : Int} {why : OptionDefect} {old : Cap} (hlax : Uncapped given → lax)
    (hname : name = "max_iterations" ∨ name = "max_evaluations" ∨ name = "max_linesearch_evaluations")
    (hleast : (Float.ofInt least).isNaN = false) (hold : old.AtLeast least ∨ lax ∧ old.IsNaN) :
    Answers given (fun c => c.AtLeast least ∨ lax ∧ c.IsNaN) (readOr given name old (readCap least why)) := by
  refine readOr_answers (fun _ => hold) fun v hv => ?_
  refine readCap_answers (hgiven _ (Value.mem_of_field? hv)) hleast fun a ha hn => hlax ⟨name, a, hname, ?_, hn⟩
  rw [hv, ha]

theorem readOr_tolerance_answers {name : String} {old : Float} (hname : name = "f_tolerance" ∨ name = "g_tolerance")
    (hold : 0.0 ≤ old) :
    Answers given (fun a => 0.0 ≤ a ∧ ∀ i, Value.field? given name = some (.whole i) → a = Value.nearest i)
      (readOr given name old (readTolerance name)) := by
  refine readOr_answers (fun hnone => ⟨hold, fun i hi => nomatch hnone.symm.trans hi⟩) fun v hv => ?_
  refine (readTolerance_answers (hgiven _ (Value.mem_of_field? hv)) hname hv).mono fun h => ⟨h.1, fun i hi => ?_⟩
  exact h.2 i (Option.some.inj (hv.symm.trans hi))

theorem with?_answers (hold : o.Ranged lax) (hlax : Uncapped given → lax) :
    Answers given (Ranged lax) (o.with? given) := by
  have hnumber {name : String} {v : Value} (h : Value.field? given name = some v) : v.IsNumber :=
    hgiven _ (Value.mem_of_field? h)
  rw [with?]
  refine .bind (readOr_answers (fun _ => hold.depth) fun v _ => readDepth_answers v) fun depth hdepth => ?_
  refine .bind (readOr_tolerance_answers hgiven (.inl rfl) hold.fTolerance) fun fTolerance hf => ?_
  refine .bind (readOr_tolerance_answers hgiven (.inr rfl) hold.gTolerance.2) fun gTold hg => ?_
  refine .bind (readOr_cap_answers hgiven hlax (.inl rfl) (by decide +kernel) hold.iterations)
    fun iterations hiterations => ?_
  refine .bind (readOr_cap_answers hgiven hlax (.inr (.inl rfl)) (by decide +kernel) hold.evaluations)
    fun evaluations hevaluations => ?_
  refine .bind (readWolfe_answers (isNumber_getD hgiven "c1" o.c1) (isNumber_getD hgiven "c2" o.c2)) fun c hc => ?_
  refine .bind (readOr_answers (fun _ => hold.width) fun v hv => readWidth_answers (hnumber hv)) fun width hwidth => ?_
  refine .bind (readOr_cap_answers hgiven hlax (.inr (.inr rfl)) (by decide +kernel) hold.searchEvaluations)
    fun searchEvaluations hsearch => ?_
  refine .bind (readOr_answers (fun _ => trivial) fun v hv => readBounds_answers (hnumber hv)) fun bounds _ => ?_
  refine .bind (readOr_answers (fun _ => trivial) fun v hv => readVerbosity_answers (hnumber hv) hv)
    fun verbosity _ => ?_
  refine .ok ⟨hdepth, hf.1, ⟨?_, hg.1⟩, hiterations, hevaluations, hsearch, hc, hwidth⟩
  dsimp only
  split
  · rename_i i hi
    exact Value.le_nearestBelow (hg.2 i hi ▸ hg.1)
  · exact hg.1
  · exact hold.gTolerance.1

end

theorem update_answers {o : Options Float} {lax : Prop} (hold : o.Ranged lax)
    (hgiven : ∀ f ∈ given, f.1 ≠ ownName ∧ f.2.IsNumber) (hlax : Uncapped given → lax) :
    Answers given (Ranged lax) (o.update given) := by
  have hown : (given.any fun f => f.1 == ownName) = false :=
    List.any_eq_false.mpr fun f hf => by simpa using (hgiven f hf).1
  rw [update, if_neg (Bool.not_eq_true _ ▸ hown)]
  split
  · exact with?_answers (fun f hf => (hgiven f hf).2) hold hlax
  · exact .invalid _

theorem unknownNames_eq_nil (h : ∀ f ∈ given, f.1 ∈ names) : unknownNames given = [] := by
  have hknown : ((given.map Prod.fst).filter fun name => !names.contains name) = [] := by
    rw [List.filter_eq_nil_iff]
    intro name hname
    obtain ⟨f, hf, rfl⟩ := List.mem_map.mp hname
    simpa using h f hf
  rw [unknownNames, hknown, List.mergeSort_nil]

theorem make_answers {lax : Prop} (hgiven : ∀ f ∈ given, f.1 ∈ names ∧ f.2.IsNumber) (hlax : Uncapped given → lax) :
    Answers given (Ranged lax) (make given) := by
  rw [make, unknownNames_eq_nil fun f hf => (hgiven f hf).1]
  exact with?_answers (fun f hf => (hgiven f hf).2) (standard_ranged lax) hlax

end

/-! Options are made and changed one after the other. The ones that there are stay, so each can be changed later on. -/

inductive Request where
  | make (given : List (String × Value))
  | update (place : Nat) (given : List (String × Value))

namespace Request

def given : Request → List (String × Value)
  | .make given | .update _ given => given

/-- Numbers are given, and names that options have; for a change there may be other names but not the options' own one. -/
def Numeric : Request → Prop
  | .make given => ∀ f ∈ given, f.1 ∈ names ∧ f.2.IsNumber
  | .update _ given => ∀ f ∈ given, f.1 ≠ ownName ∧ f.2.IsNumber

/-- Whether there are options that a request changes. -/
def Placed (made : List (Options Float)) : Request → Prop
  | .make _ => True
  | .update place _ => place < made.length

def perform (made : List (Options Float)) : Request → Except (Fault Float) (Options Float)
  | .make given => Options.make given
  | .update place given => (Fault.inRange made[place]?).bind fun o => o.update given

def after (made : List (Options Float)) (c : Request) : List (Options Float) :=
  match c.perform made with
  | .ok o => made ++ [o]
  | .error _ => made

def built (requests : List Request) : List (Options Float) := requests.foldl after []

variable {made : List (Options Float)} {c : Request} {lax : Prop}

theorem perform_answers (hmade : ∀ o ∈ made, o.Ranged lax) (hc : c.Numeric) (hplace : c.Placed made)
    (hlax : Uncapped c.given → lax) : Answers c.given (Ranged lax) (c.perform made) := by
  cases c with
  | make given => exact make_answers hc hlax
  | update place given =>
      rw [perform, List.getElem?_eq_getElem hplace]
      exact update_answers (hmade _ (List.getElem_mem hplace)) hc hlax

theorem placed_of_perform_eq_ok {o : Options Float} (h : c.perform made = .ok o) : c.Placed made := by
  cases c with
  | make given => trivial
  | update place given =>
      by_contra hplace
      rw [perform, List.getElem?_eq_none (not_lt.mp hplace)] at h
      cases h

theorem after_ranged (hmade : ∀ o ∈ made, o.Ranged lax) (hc : c.Numeric) (hlax : Uncapped c.given → lax) :
    ∀ o ∈ after made c, o.Ranged lax := by
  rw [after]
  split
  · rename_i o ho
    intro o' ho'
    rcases List.mem_append.mp ho' with ho' | ho'
    · exact hmade o' ho'
    · rw [List.mem_singleton.mp ho']
      rcases perform_answers hmade hc (placed_of_perform_eq_ok ho) hlax with ⟨why, h⟩ | ⟨h, -⟩ | ⟨b, h, hb⟩
      · cases ho.symm.trans h
      · cases ho.symm.trans h
      · cases ho.symm.trans h
        exact hb
  · exact hmade

theorem foldl_after_ranged {requests : List Request} (hmade : ∀ o ∈ made, o.Ranged lax)
    (hrequests : ∀ c ∈ requests, c.Numeric) (hlax : ∀ c ∈ requests, Uncapped c.given → lax) :
    ∀ o ∈ requests.foldl after made, o.Ranged lax := by
  induction requests generalizing made with
  | nil => exact hmade
  | cons c requests ih =>
      rw [List.foldl_cons]
      obtain ⟨hc, hrequests⟩ := List.forall_mem_cons.mp hrequests
      obtain ⟨hlaxc, hlax⟩ := List.forall_mem_cons.mp hlax
      exact ih (after_ranged hmade hc hlaxc) hrequests hlax

end Request

/-- A request with numbers makes options in their ranges or none, and the ones made before stay. It is refused as
invalid if it makes none, unless an integer beyond all doubles is given for a tolerance or an infinity for a rank; and
what is no number is taken for a cap. -/
theorem requests_ranged {requests : List Request} {c : Request} (hrequests : ∀ d ∈ requests, d.Numeric) (hc : c.Numeric)
    (hplace : c.Placed (Request.built requests)) :
    Answers c.given (Ranged (∃ d ∈ requests ++ [c], Uncapped d.given)) (c.perform (Request.built requests)) ∧
    (∀ why, c.perform (Request.built requests) = .error why →
      Request.built (requests ++ [c]) = Request.built requests) ∧
    ∀ o, c.perform (Request.built requests) = .ok o →
      Request.built (requests ++ [c]) = Request.built requests ++ [o] := by
  have hmade : ∀ o ∈ Request.built requests, o.Ranged (∃ d ∈ requests ++ [c], Uncapped d.given) :=
    Request.foldl_after_ranged (List.forall_mem_nil _) hrequests fun d hd h => ⟨d, List.mem_append_left _ hd, h⟩
  have hafter : Request.built (requests ++ [c]) = Request.after (Request.built requests) c := List.foldl_append
  refine ⟨Request.perform_answers hmade hc hplace fun h => ⟨c, List.mem_append_right _ (List.mem_singleton_self c), h⟩,
    fun why h => ?_, fun o h => ?_⟩
  · rw [hafter, Request.after, h]
  · rw [hafter, Request.after, h]

/-- Options of depth three are made. -/
def shallow : List Request := [.make [("memory_depth", .whole 3)]]

/-- A change that puts the first constant of the search above the second one. -/
def crossed : Request := .update 0 [("max_evaluations", .whole 7), ("c1", .real 0.95)]

theorem requests_ranged_crossed :
    (Request.built shallow).map (·.depth) = [3] ∧
      (∃ why, crossed.perform (Request.built shallow) = .error (.invalid (.option why))) ∧
      Request.built (shallow ++ [crossed]) = Request.built shallow := by
  have hrequests : ∀ d ∈ shallow, d.Numeric := by simp [shallow, Request.Numeric, names, Value.IsNumber]
  have hc : crossed.Numeric := by simp [crossed, Request.Numeric, ownName, Value.IsNumber]
  have hmade : (Request.built shallow).map (·.depth) = [3] := by decide +kernel
  have hplace : crossed.Placed (Request.built shallow) := by
    have hlength := congrArg List.length hmade
    rw [List.length_map] at hlength
    show 0 < (Request.built shallow).length
    rw [hlength]
    exact Nat.zero_lt_one
  have hfails : (crossed.perform (Request.built shallow)).isOk = false := by decide +kernel
  obtain ⟨⟨why, h⟩ | ⟨-, hlarge⟩ | ⟨o, h, -⟩, hstays, -⟩ := requests_ranged hrequests hc hplace
  · exact ⟨hmade, ⟨why, h⟩, hstays _ h⟩
  · rcases hlarge with ⟨name, i, rfl | rfl, h, -⟩ | ⟨a, h, -⟩ <;> simp [crossed, Request.given, Value.field?] at h
  · rw [h] at hfails
    cases hfails

/-- What is no number is taken for a cap, and an infinity is too large for a rank to be refused as invalid. -/
theorem make_out_of_range :
    (∃ o, make [("max_iterations", .real (0.0 / 0.0))] = .ok o ∧ ¬o.iterations.AtLeast 0) ∧
    make [("printing", .real (1.0 / 0.0))] = .error (.misread .unbounded) := by
  have hmade : (make [("max_iterations", .real (0.0 / 0.0))]).toOption.any (fun o =>
      match o.iterations with
      | .real a => a.isNaN
      | _ => false) = true := by decide +kernel
  obtain ⟨o, ho, hn⟩ := (Option.any_eq_true _ _).mp hmade
  refine ⟨⟨o, eq_ok_of_toOption ho, fun h => ?_⟩, ?_⟩
  · split at hn
    · rename_i a ha
      rw [ha] at h
      exact Bool.false_ne_true ((Double.not_isNaN_of_le h).2.symm.trans hn)
    · cases hn
  · have hrefused : (match make [("printing", .real (1.0 / 0.0))] with
        | .error (.misread .unbounded) => true
        | _ => false) = true := by decide +kernel
    split at hrefused
    · assumption
    · cases hrefused

end Options

end BoxBfgs
