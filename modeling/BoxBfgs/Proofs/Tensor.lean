import BoxBfgs.Proofs.Basic
import BoxBfgs.Tensor.Choice

namespace BoxBfgs

theorem mapM_eq_some {β γ : Type} {f : β → Option γ} {g : β → γ} {l : List β} (h : ∀ b ∈ l, f b = some (g b)) :
    l.mapM f = some (l.map g) := by
  induction l with
  | nil => rfl
  | cons b l ih =>
      rw [List.mapM_cons, h b (List.mem_cons_self ..), ih fun b hb => h b (List.mem_cons_of_mem _ hb)]
      rfl

theorem mapM_eq_ok {ε β γ : Type} {f : β → Except ε γ} {l : List β} {r : List γ} :
    l.mapM f = .ok r ↔ List.Forall₂ (fun b c => f b = .ok c) l r := by
  induction l generalizing r with
  | nil =>
      rw [List.mapM_nil, List.forall₂_nil_left_iff]
      exact ⟨fun h => (Except.ok.inj h).symm, fun h => congrArg Except.ok h.symm⟩
  | cons b l ih =>
      rw [List.mapM_cons, List.forall₂_cons_left_iff]
      constructor
      · intro h
        obtain ⟨c, hc, h⟩ := bind_eq_ok h
        obtain ⟨s, hs, h⟩ := bind_eq_ok h
        cases h
        exact ⟨c, s, hc, ih.mp hs, rfl⟩
      · rintro ⟨c, s, hc, hs, rfl⟩
        rw [hc, ih.mpr hs]
        rfl

theorem Vec.mapM_eq_ok {ε β γ : Type} {n : Nat} {f : β → Except ε γ} {v : Vector β n} {w : Vector γ n} :
    v.mapM f = .ok w ↔ ∀ i, f (v.get i) = .ok (w.get i) := by
  have hlist : Vector.toList <$> v.mapM f = v.toList.mapM f := by
    have harray : Vector.toArray <$> v.mapM f = v.toArray.mapM f := Vector.toArray_mapM
    have h := congrArg (Array.toList <$> ·) harray
    simp only [Array.toList_mapM, Functor.map_map] at h
    exact h
  have hforall : List.Forall₂ (fun b c => f b = .ok c) v.toList w.toList ↔ ∀ i, f (v.get i) = .ok (w.get i) := by
    rw [List.forall₂_iff_get]
    simp only [Vector.length_toList, List.get_eq_getElem, Vector.getElem_toList, true_and, Vec.get_eq_getElem]
    exact ⟨fun h i => h i i.isLt i.isLt, fun h i hi _ => h ⟨i, hi⟩⟩
  rw [← hforall, ← BoxBfgs.mapM_eq_ok, ← hlist]
  cases v.mapM f with
  | error e => exact iff_of_false nofun nofun
  | ok u =>
      refine ⟨fun h => congrArg (Except.ok ∘ Vector.toList) (Except.ok.inj h), fun h => congrArg Except.ok ?_⟩
      exact Vector.toList_inj.mp (Except.ok.inj h)

namespace Tensor

variable {β γ : Type} {r c n : Nat}

theorem parts_flatMap {size : Nat} {f : γ → List β} (hf : ∀ a, (f a).length = size) (l : List γ) :
    parts size l.length (l.flatMap f) = l.map f := by
  induction l with
  | nil => rfl
  | cons a l ih =>
      rw [List.length_cons, parts, List.flatMap_cons, ← hf a, List.take_left, List.drop_left, hf a, ih]
      rfl

theorem parts_ofDense (a : Dense β r c) : parts c r (ofDense a).entries = a.rows.toList.map Vector.toList := by
  have h : parts c a.rows.toList.length (a.rows.toList.flatMap Vector.toList) = a.rows.toList.map Vector.toList :=
    parts_flatMap (fun _ => Vector.length_toList) _
  rwa [Vector.length_toList] at h

/-- A matrix is read back out of its entries. -/
theorem dense?_ofDense (a : Dense β r c) : (ofDense a).dense? r c = some a := by
  have hrows : (a.rows.toList.map Vector.toList).mapM (Vec.ofList? c) = some a.rows.toList := by
    rw [List.mapM_map]
    exact (mapM_eq_some fun v _ => Vec.ofList?_toList v).trans (congrArg some (List.map_id _))
  rw [dense?, parts_ofDense, hrows, Option.bind_some, Vec.ofList?_toList]
  rfl

theorem length_parts (size : Nat) (l : List β) : (parts size n l).length = n := by
  induction n generalizing l with
  | zero => rfl
  | succ n ih => rw [parts, List.length_cons, ih]

theorem flatten_parts {size : Nat} {l : List β} (h : l.length = n * size) : (parts size n l).flatten = l := by
  induction n generalizing l with
  | zero =>
      rw [Nat.zero_mul, List.length_eq_zero_iff] at h
      rw [h]
      rfl
  | succ n ih =>
      rw [parts, List.flatten_cons, ih, List.take_append_drop]
      rw [List.length_drop, h, Nat.succ_mul, Nat.add_sub_cancel]

theorem front_eq_self {t : Tensor β} {inner : List Nat} (hshape : t.shape = n :: inner)
    (h : t.entries.length = n * room inner) : t.front n = t := by
  have hrows : t.rows = (parts (room inner) n t.entries).map fun l => ⟨inner, l⟩ := by rw [rows, hshape]
  have hlength : t.rows.length = n := by rw [hrows, List.length_map, length_parts]
  have hentries : t.rows.flatMap entries = t.entries := by
    rw [hrows, List.flatMap_map]
    exact List.flatMap_id'.trans (flatten_parts h)
  rw [front, ofRows, List.take_of_length_le hlength.le, hlength, hentries, hshape, List.tail_cons, ← hshape]

theorem front_ofVector (v : Vector β n) : (ofVector v).front n = ofVector v :=
  front_eq_self rfl (by simp [room])

theorem front_ofDense (a : Dense β r c) : (ofDense a).front r = ofDense a :=
  front_eq_self rfl (by simp [ofDense, room, List.length_flatMap])

theorem entries_ofFn (f : Fin r → Fin c → β) :
    (ofDense (Dense.ofFn f)).entries = (List.finRange r).flatMap fun i => (List.finRange c).map (f i) := by
  simp [ofDense, Dense.ofFn, Vector.toList_ofFn, List.ofFn_eq_map, List.flatMap_map]

theorem entries_column (v : Vector β n) : (ofDense (Dense.ofFn fun i (_ : Fin 1) => v.get i)).entries = v.toList := by
  have hv : v = .ofFn v.get := Vec.ext_get (Vec.get_ofFn_eq v.get).symm
  rw [entries_ofFn, List.finRange_succ, List.finRange_zero]
  conv_rhs => rw [hv, Vector.toList_ofFn, List.ofFn_eq_map]
  exact List.map_eq_flatMap.symm

end Tensor

end BoxBfgs
