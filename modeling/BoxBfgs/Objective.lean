import BoxBfgs.Fault

namespace BoxBfgs

/-- What a client's function comes back with: an answer, or the reason why it gave up. -/
inductive Reply (α β : Type) where
  | answer (b : β)
  | abort (text : String)
  | arithmetic (why : Arithmetic) (text : String)
  | fault (why : Fault α)

namespace Reply

variable {α β γ : Type}

def map (f : β → γ) : Reply α β → Reply α γ
  | .answer b => .answer (f b)
  | .abort text => .abort text
  | .arithmetic why text => .arithmetic why text
  | .fault why => .fault why

def ofExcept : Except (Fault α) β → Reply α β
  | .ok b => .answer b
  | .error why => .fault why

def bind (r : Reply α β) (f : β → Reply α γ) : Reply α γ :=
  match r with
  | .answer b => f b
  | .abort text => .abort text
  | .arithmetic why text => .arithmetic why text
  | .fault why => .fault why

instance instMonad : Monad (Reply α) where
  pure := .answer
  bind := bind

end Reply

abbrev Callable (α σ β : Type) := Tensor α → σ → Reply α β × σ

inductive Objective (α σ : Type) where
  | combined (f : Callable α σ (α × Tensor α))
  | split (value : Callable α σ α) (gradient : Callable α σ (Tensor α))
  | custom (name : String) (f : Callable α σ (α × Tensor α))

inductive Offer (α σ : Type) where
  | objective (name : String) (f : Callable α σ (α × Tensor α))
  /-- An object of a sort, with a method for the value and one for the gradient, or without. -/
  | object (sort : String) (value : Option (Callable α σ α)) (gradient : Option (Callable α σ (Tensor α)))
  | pair (value : Option (Callable α σ α)) (gradient : Option (Callable α σ (Tensor α)))
  | function (f : Callable α σ (α × Tensor α))
  | other (sort : String)

namespace Offer

variable {α σ : Type}

def adapt : Offer α σ → Except (Fault α) (Objective α σ)
  | .objective name f => .ok (.custom name f)
  | .object _ (some v) (some g) => .ok (.split v g)
  | .object sort _ _ => .error (.invalid (.objective sort))
  | .pair (some v) (some g) => .ok (.split v g)
  | .pair _ _ => .error (.invalid (.objective "tuple"))
  | .function f => .ok (.combined f)
  | .other sort => .error (.invalid (.objective sort))

end Offer

namespace Objective

variable {α σ : Type}

/-- Value and gradient at a point. Separate functions are called in this order, the second one only when the first
has answered. -/
def call (o : Objective α σ) (x : Tensor α) (world : σ) : Reply α (α × Tensor α) × σ :=
  match o with
  | .combined f => f x world
  | .custom _ f => f x world
  | .split v g =>
      match v x world with
      | (.answer a, world) =>
          let (r, world) := g x world
          (r.map fun b => (a, b), world)
      | (.abort text, world) => (.abort text, world)
      | (.arithmetic why text, world) => (.arithmetic why text, world)
      | (.fault why, world) => (.fault why, world)

def callUncounted (o : Objective α σ) (x : Tensor α) (world : σ) : Except (Fault α) (α × Tensor α) × σ :=
  match o.call x world with
  | (.answer a, world) => (.ok a, world)
  | (.abort text, world) => (.error (.failure (.uncounted text)), world)
  | (.arithmetic why _, world) => (.error (.arithmetic why), world)
  | (.fault why, world) => (.error why, world)

end Objective

end BoxBfgs
