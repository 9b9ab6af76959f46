import BoxBfgs.Dense

namespace BoxBfgs

inductive Singularity where
  | nonFinite
  | single
  | double
deriving DecidableEq, Repr

/-- A symmetric matrix as pivots and multipliers. A pivot is a number or a symmetric two by two block; `p` says
which row and column were exchanged with the first one, for a block with the second one. -/
inductive Factor (α : Type) : Nat → Type where
  | nil : Factor α 0
  | single {n : Nat} (p : Fin (n + 1)) (d : α) (l : Vector α n) (rest : Factor α n) : Factor α (n + 1)
  | double {n : Nat} (p : Fin (n + 1)) (a b c : α) (l m : Vector α n) (rest : Factor α n) : Factor α (n + 2)

inductive Pivot (n : Nat) where
  | single (p : Fin (n + 1))
  | double (p : Fin n)
deriving DecidableEq, Repr

namespace Factor

variable {α : Type} [Scalar α] {n : Nat}

/-- The ratio that bounds the growth of the entries best, `(1 + √17) / 8`. -/
def ratio : α := (1 + Scalar.sqrt 17.0) / 8.0

/-- The first place of the largest magnitude below the diagonal of the first column. -/
def columnPeak (a : Dense α (n + 1) (n + 1)) : Option (Fin n × α) :=
  (List.finRange n).foldl (fun best i =>
    let v := Scalar.abs (a.entry i.succ 0)
    match best with
    | none => some (i, v)
    | some (j, w) => if v > w then some (i, v) else some (j, w)) none

/-- The largest magnitude in a row, its diagonal entry left out. -/
def rowPeak (a : Dense α (n + 1) (n + 1)) (i : Fin (n + 1)) : α :=
  (List.finRange (n + 1)).foldl (fun w j => if j = i then w else Scalar.maximum w (Scalar.abs (a.entry i j))) 0

def choosePivot (a : Dense α (n + 1) (n + 1)) : Pivot n :=
  match columnPeak a with
  | none => .single 0
  | some (i, column) =>
      let diagonal := Scalar.abs (a.entry 0 0)
      if diagonal ≥ ratio * column || Scalar.unordered diagonal then .single 0
      else
        let row := rowPeak a i.succ
        if diagonal ≥ ratio * column * (column / row) then .single 0
        else if Scalar.abs (a.entry i.succ i.succ) ≥ ratio * row then .single i.succ
        else .double i

/-- The block `[[a, b], [b, c]]` solved for `(x, y)`, scaled by `b` against overflow. -/
def blockSolve (a b c x y : α) : α × α :=
  let p := c / b
  let q := a / b
  let t := 1 / (p * q - 1) / b
  (t * (p * x - y), t * (q * y - x))

/-- What is left of a matrix when its first row and column are eliminated with the multipliers `l`. -/
def eliminateSingle (a : Dense α (n + 1) (n + 1)) (l : Vector α n) : Dense α n n :=
  .ofLower fun i j => a.entry i.succ j.succ - l.get i * a.entry j.succ 0

def eliminateDouble (a : Dense α (n + 2) (n + 2)) (l m : Vector α n) : Dense α n n :=
  .ofLower fun i j =>
    a.entry i.succ.succ j.succ.succ - (l.get i * a.entry j.succ.succ 0 + m.get i * a.entry j.succ.succ 1)

def factorize (tol : α) : {n : Nat} → Dense α n n → Except Singularity (Factor α n)
  | 0, _ => .ok .nil
  | 1, a =>
      let d := a.entry 0 0
      if Scalar.abs d ≤ tol then .error .single else .ok (.single 0 d #v[] .nil)
  | n + 2, a =>
      match choosePivot a with
      | .single p =>
          let e := a.exchange 0 p
          let d := e.entry 0 0
          if Scalar.abs d ≤ tol then .error .single
          else
            let l : Vector α (n + 1) := .ofFn fun i => e.entry i.succ 0 / d
            (factorize tol (eliminateSingle e l)).map (.single p d l)
      | .double p =>
          let e := a.exchange 1 p.succ
          let a := e.entry 0 0
          let b := e.entry 1 0
          let c := e.entry 1 1
          if Scalar.abs (a * c - b * b) ≤ tol * tol then .error .double
          else
            let rows : Vector (α × α) n :=
              .ofFn fun i => blockSolve a b c (e.entry i.succ.succ 0) (e.entry i.succ.succ 1)
            let l := rows.map Prod.fst
            let m := rows.map Prod.snd
            (factorize tol (eliminateDouble e l m)).map (.double p a b c l m)

/-- Factors the symmetric matrix that the lower triangle describes. A pivot counts as singular up to the gap
of the doubles at the size of the matrix, and never below the gap at one. -/
def ofMatrix (a : Dense α n n) : Except Singularity (Factor α n) :=
  if n = 0 || a.isFinite then
    factorize (Scalar.epsilon * Scalar.greatest a.maxAbs 1 * Scalar.ofInt n) (.ofLower a.entry)
  else .error .nonFinite

def forward : {n : Nat} → Factor α n → Vector α n → Vector α n
  | _, .nil, _ => #v[]
  | _, .single p d l rest, v =>
      let u := Vec.exchange v 0 p
      Vec.cons (u.get 0 / d) (rest.forward (Vec.tail u - Vec.scale (u.get 0) l))
  | _, .double p a b c l m rest, v =>
      let u := Vec.exchange v 1 p.succ
      let (x, y) := blockSolve a b c (u.get 0) (u.get 1)
      Vec.cons x (Vec.cons y
        (rest.forward (Vec.tail (Vec.tail u) - (Vec.scale (u.get 0) l + Vec.scale (u.get 1) m))))

def backward : {n : Nat} → Factor α n → Vector α n → Vector α n
  | _, .nil, _ => #v[]
  | _, .single p _ l rest, w =>
      let x := rest.backward (Vec.tail w)
      Vec.exchange (Vec.cons (w.get 0 - Vec.dot l x) x) 0 p
  | _, .double p _ _ _ l m rest, w =>
      let x := rest.backward (Vec.tail (Vec.tail w))
      Vec.exchange (Vec.cons (w.get 0 - Vec.dot l x) (Vec.cons (w.get 1 - Vec.dot m x) x)) 1 p.succ

def solve (f : Factor α n) (v : Vector α n) : Vector α n := f.backward (f.forward v)

/-- The solution, unless the right-hand side is not finite or becomes so on the way to the back substitution. -/
def solve? (f : Factor α n) (v : Vector α n) : Option (Vector α n) :=
  let w := f.forward v
  if Vec.isFinite v && Vec.isFinite w then some (f.backward w) else none

end Factor

end BoxBfgs
