import BoxBfgs.Tensor.Product

namespace BoxBfgs

/-- The places of a matrix in the order in which a factor takes them. -/
def Factor.order {α : Type} : {n : Nat} → Factor α n → Vector (Fin n) n
  | _, .nil => #v[]
  | _, .single p _ _ rest =>
      let u := Vec.exchange (Vector.ofFn id) 0 p
      Vec.cons (u.get 0) (rest.order.map fun i => u.get i.succ)
  | _, .double p _ _ _ _ _ rest =>
      let u := Vec.exchange (Vector.ofFn id) 1 p.succ
      Vec.cons (u.get 0) (Vec.cons (u.get 1) (rest.order.map fun i => u.get i.succ.succ))

namespace Checked

variable {α : Type} [Scalar α]

def factor (t : Tensor α) : Except (Fault α) ((n : Nat) × Factor α n) :=
  match t.shape with
  | [r, c] =>
      if r ≠ c then .error (.unmet .square)
      else
        match t.dense? r r with
        | none => .error .mismatch
        | some a =>
            match Factor.ofMatrix a with
            | .ok f => .ok ⟨r, f⟩
            | .error why => .error (.breakdown (.matrix why))
  | _ => .error (.unmet .square)

variable {n : Nat} (f : Factor α n)

def solveColumns (c : Nat) (rows : List (List α)) (solve : Vector α n → Option (Vector α n)) :
    Except (Fault α) (List α) :=
  match (List.range c).mapM fun j => (Vec.ofList? n (rows.filterMap (·[j]?))).bind solve with
  | some columns => .ok ((List.finRange n).flatMap fun (i : Fin n) => columns.map fun x => x.get i)
  | none => .error .nonFinite

/-- A solution with the places of both sides in the order of the factor. -/
def solveInOrder (v : Vector α n) : Option (Vector α n) :=
  (f.solve? (Vec.scatter v f.order v)).map fun x => Vec.gather x f.order

/-- The solutions for the first rows of a right-hand side: for a vector, for the columns of a matrix, or for those of
many matrices, whose rows stand in the order of the factor. Without a matrix the solution is zero. -/
def solve (rhs : Tensor α) : Except (Fault α) (Tensor α) :=
  if n = 0 then .ok (rhs.map fun _ => 0)
  else
    match rhs.shape with
    | [] => .error .outOfRange
    | rows :: inner =>
        if rows < n then .error .outOfRange
        else
          let used := rhs.front n
          match inner with
          | [] => (solveColumns 1 (Tensor.parts 1 n used.entries) f.solve?).map fun l => ⟨[n], l⟩
          | [c] => (solveColumns c (Tensor.parts c n used.entries) f.solve?).map fun l => ⟨[n, c], l⟩
          | _ =>
              match Tensor.core? used.shape with
              | some (front, r, c) =>
                  if r ≠ n then .error .mismatch
                  else
                    ((Tensor.parts (n * c) (Tensor.room front) used.entries).mapM fun l =>
                        solveColumns c (Tensor.parts c n l) (solveInOrder f)).map fun blocks =>
                      ⟨used.shape, blocks.flatten⟩
              | none => .error .mismatch

end Checked

end BoxBfgs
