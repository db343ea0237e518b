import Mathlib

/-!
# JSON values as Python holds them

`Json` is what `json.loads` produces: objects are insertion-ordered lists of fields.
Two values are the same *up to key order* (`KeyEquiv`) when one arises from the other by
reordering the fields of objects, at any depth. `sortKeys` picks one value of each class
the way `json.dumps(..., sort_keys=True)` does.
-/

/-- A Python float. Every finite double other than `-0.0` is a rational. -/
inductive PyFloat
  | nan
  | inf (negative : Bool)
  | negZero
  | rat (q : ℚ)
deriving DecidableEq

/-- A Python number: arbitrary-precision integers and floats are different values. -/
inductive PyNum
  | int (z : ℤ)
  | float (f : PyFloat)
deriving DecidableEq

/-- A JSON value. -/
inductive Json
  | null
  | bool (b : Bool)
  | num (n : PyNum)
  | str (s : String)
  | arr (xs : List Json)
  | obj (fields : List (String × Json))

namespace Json

/-- `dict.get(key)`: the value of a key, if it is there. -/
def lookup (fields : List (String × Json)) (key : String) : Option Json :=
  (fields.find? fun kv => kv.1 = key).map Prod.snd

/-- `d[key] = value`: in place if the key is there, else at the end. -/
def setItem (fields : List (String × Json)) (key : String) (value : Json) :
    List (String × Json) :=
  if key ∈ fields.map Prod.fst then
    fields.map fun kv => if kv.1 = key then (key, value) else kv
  else fields ++ [(key, value)]

/-- `d.update(other)`. -/
def update (fields other : List (String × Json)) : List (String × Json) :=
  other.foldl (fun d kv => setItem d kv.1 kv.2) fields

/-! ## Equality up to key order -/

/-- Equality up to the order of object keys at every depth. -/
inductive KeyEquiv : Json → Json → Prop
  | refl (v : Json) : KeyEquiv v v
  | symm {v w : Json} : KeyEquiv v w → KeyEquiv w v
  | trans {u v w : Json} : KeyEquiv u v → KeyEquiv v w → KeyEquiv u w
  /-- The fields of an object may be reordered. -/
  | perm {fields fields' : List (String × Json)} : fields.Perm fields' →
      KeyEquiv (obj fields) (obj fields')
  /-- An element of an array may be replaced by an equivalent one. -/
  | elem (pre post : List Json) {v w : Json} : KeyEquiv v w →
      KeyEquiv (arr (pre ++ v :: post)) (arr (pre ++ w :: post))
  /-- The value of a field may be replaced by an equivalent one. -/
  | field (pre post : List (String × Json)) (k : String) {v w : Json} : KeyEquiv v w →
      KeyEquiv (obj (pre ++ (k, v) :: post)) (obj (pre ++ (k, w) :: post))

/-! ## Sorting keys -/

mutual

/-- The value with the fields of every object sorted by key. -/
def sortKeys : Json → Json
  | null => null
  | bool b => bool b
  | num n => num n
  | str s => str s
  | arr xs => arr (sortElems xs)
  | obj fields => obj ((sortFields fields).insertionSort fun a b => a.1 ≤ b.1)

/-- `sortKeys` on every element. -/
def sortElems : List Json → List Json
  | [] => []
  | v :: vs => sortKeys v :: sortElems vs

/-- `sortKeys` on the value of every field. -/
def sortFields : List (String × Json) → List (String × Json)
  | [] => []
  | (k, v) :: fields => (k, sortKeys v) :: sortFields fields

end

lemma sortElems_eq_map (xs : List Json) : sortElems xs = xs.map sortKeys := by
  induction xs with
  | nil => rw [sortElems, List.map_nil]
  | cons v vs ih => rw [sortElems, ih, List.map_cons]

lemma sortFields_eq_map (fields : List (String × Json)) :
    sortFields fields = fields.map fun kv => (kv.1, sortKeys kv.2) := by
  induction fields with
  | nil => rw [sortFields, List.map_nil]
  | cons kv fields ih => rw [sortFields, ih, List.map_cons]

mutual

/-- Sorting keys stays within the equivalence class. -/
theorem keyEquiv_sortKeys : ∀ v : Json, KeyEquiv v (sortKeys v)
  | null => by rw [sortKeys]; exact .refl _
  | bool _ => by rw [sortKeys]; exact .refl _
  | num _ => by rw [sortKeys]; exact .refl _
  | str _ => by rw [sortKeys]; exact .refl _
  | arr xs => by rw [sortKeys]; exact keyEquiv_sortElems xs []
  | obj fields => by
    rw [sortKeys]
    exact (keyEquiv_sortFields fields []).trans (.perm (List.perm_insertionSort _ _).symm)

theorem keyEquiv_sortElems : ∀ xs pre : List Json,
    KeyEquiv (arr (pre ++ xs)) (arr (pre ++ sortElems xs))
  | [], pre => by rw [sortElems]; exact .refl _
  | v :: vs, pre => by
    have hrest := keyEquiv_sortElems vs (pre ++ [sortKeys v])
    rw [List.append_assoc, List.append_assoc, List.singleton_append, List.singleton_append] at hrest
    rw [sortElems]
    exact (KeyEquiv.elem pre vs (keyEquiv_sortKeys v)).trans hrest

theorem keyEquiv_sortFields : ∀ fields pre : List (String × Json),
    KeyEquiv (obj (pre ++ fields)) (obj (pre ++ sortFields fields))
  | [], pre => by rw [sortFields]; exact .refl _
  | (k, v) :: fields, pre => by
    have hrest := keyEquiv_sortFields fields (pre ++ [(k, sortKeys v)])
    rw [List.append_assoc, List.append_assoc, List.singleton_append, List.singleton_append] at hrest
    rw [sortFields]
    exact (KeyEquiv.field pre fields k (keyEquiv_sortKeys v)).trans hrest

end

/-- Objects whose fields agree, up to order and up to key order inside the values, are the
same up to key order. -/
theorem keyEquiv_obj_of_perm {fields fields' : List (String × Json)}
    (h : (sortFields fields).Perm (sortFields fields')) : KeyEquiv (obj fields) (obj fields') :=
  (keyEquiv_sortFields fields []).trans
    ((KeyEquiv.perm h).trans (keyEquiv_sortFields fields' []).symm)

/-- What equal sorted forms of objects say about their fields. -/
theorem perm_of_sortKeys_obj_eq {fields fields' : List (String × Json)}
    (h : sortKeys (obj fields) = sortKeys (obj fields')) :
    (sortFields fields).Perm (sortFields fields') := by
  rw [sortKeys, sortKeys, obj.injEq] at h
  have hsorted := List.perm_insertionSort (fun a b => a.1 ≤ b.1) (sortFields fields')
  rw [← h] at hsorted
  exact (List.perm_insertionSort _ _).symm.trans hsorted

/-! ## Distinct keys -/

mutual

/-- No object in the value has a key twice. -/
def Distinct : Json → Prop
  | null => True
  | bool _ => True
  | num _ => True
  | str _ => True
  | arr xs => DistinctElems xs
  | obj fields => (fields.map Prod.fst).Nodup ∧ DistinctFields fields

/-- `Distinct` of every element. -/
def DistinctElems : List Json → Prop
  | [] => True
  | v :: vs => Distinct v ∧ DistinctElems vs

/-- `Distinct` of the value of every field. -/
def DistinctFields : List (String × Json) → Prop
  | [] => True
  | (_, v) :: fields => Distinct v ∧ DistinctFields fields

end

lemma distinctElems_iff {xs : List Json} : DistinctElems xs ↔ ∀ v ∈ xs, Distinct v := by
  induction xs with
  | nil => simp [DistinctElems]
  | cons v vs ih => rw [DistinctElems, ih, List.forall_mem_cons]

lemma distinctFields_iff {fields : List (String × Json)} :
    DistinctFields fields ↔ ∀ kv ∈ fields, Distinct kv.2 := by
  induction fields with
  | nil => simp [DistinctFields]
  | cons kv fields ih => rw [DistinctFields, ih, List.forall_mem_cons]

/-- Fields with distinct keys are sorted the same way from any order. -/
lemma insertionSort_eq_of_perm {fields fields' : List (String × Json)}
    (hnodup : (fields.map Prod.fst).Nodup) (h : fields.Perm fields') :
    fields.insertionSort (fun a b => a.1 ≤ b.1) = fields'.insertionSort fun a b => a.1 ≤ b.1 := by
  have htotal : Std.Total fun a b : String × Json => a.1 ≤ b.1 := ⟨fun a b => le_total a.1 b.1⟩
  have htrans : IsTrans (String × Json) fun a b => a.1 ≤ b.1 := ⟨fun _ _ _ => le_trans⟩
  have hsort := List.perm_insertionSort (fun a b : String × Json => a.1 ≤ b.1) fields
  have hsort' := List.perm_insertionSort (fun a b : String × Json => a.1 ≤ b.1) fields'
  refine List.Perm.eq_of_pairwise (fun a b ha hb hab hba => ?_) (List.pairwise_insertionSort _ _)
    (List.pairwise_insertionSort _ _) (hsort.trans (h.trans hsort'.symm))
  -- fields of one list with the same key are the same field
  have ha : a ∈ fields := hsort.mem_iff.mp ha
  have hb : b ∈ fields := h.mem_iff.mpr (hsort'.mem_iff.mp hb)
  exact List.inj_on_of_nodup_map hnodup ha hb (le_antisymm hab hba)

/-- Reordering keys leaves them distinct, and does not show after sorting. -/
theorem KeyEquiv.sortKeys_eq {v w : Json} (h : KeyEquiv v w) :
    (Distinct v ↔ Distinct w) ∧ (Distinct v → sortKeys v = sortKeys w) := by
  induction h with
  | refl => exact ⟨Iff.rfl, fun _ => rfl⟩
  | symm _ ih => exact ⟨ih.1.symm, fun hw => (ih.2 (ih.1.mpr hw)).symm⟩
  | trans _ _ ihuv ihvw =>
    exact ⟨ihuv.1.trans ihvw.1, fun hu => (ihuv.2 hu).trans (ihvw.2 (ihuv.1.mp hu))⟩
  | @perm fields fields' hperm =>
    have hkeys := (hperm.map Prod.fst).nodup_iff
    constructor
    · rw [Distinct, Distinct, hkeys, distinctFields_iff, distinctFields_iff]
      exact and_congr_right fun _ => forall_congr' fun kv => by rw [hperm.mem_iff]
    · intro hv
      rw [Distinct] at hv
      rw [sortKeys, sortKeys, sortFields_eq_map, sortFields_eq_map,
        insertionSort_eq_of_perm _ (hperm.map _)]
      rw [List.map_map]
      exact hv.1
  | @elem pre post v w _ ih =>
    constructor
    · rw [Distinct, Distinct, distinctElems_iff, distinctElems_iff]
      simp only [List.forall_mem_append, List.forall_mem_cons, ih.1]
    · intro hv
      rw [Distinct, distinctElems_iff] at hv
      have hmid := ih.2 (hv v (by simp))
      rw [sortKeys, sortKeys, sortElems_eq_map, sortElems_eq_map]
      simp only [List.map_append, List.map_cons, hmid]
  | @field pre post k v w _ ih =>
    constructor
    · rw [Distinct, Distinct, distinctFields_iff, distinctFields_iff]
      simp only [List.map_append, List.map_cons, List.forall_mem_append, List.forall_mem_cons, ih.1]
    · intro hv
      rw [Distinct, distinctFields_iff] at hv
      have hmid := ih.2 (hv.2 (k, v) (by simp))
      rw [sortKeys, sortKeys, sortFields_eq_map, sortFields_eq_map]
      simp only [List.map_append, List.map_cons, hmid]

/-- **Sorting keys decides equality up to key order.** -/
theorem keyEquiv_iff_sortKeys_eq {v w : Json} (hv : Distinct v) :
    KeyEquiv v w ↔ sortKeys v = sortKeys w := by
  constructor
  · intro h
    exact h.sortKeys_eq.2 hv
  · intro h
    have hw := (keyEquiv_sortKeys w).symm
    rw [← h] at hw
    exact (keyEquiv_sortKeys v).trans hw

/-! ## Updating a dict with new keys -/

/-- Setting a key that is not there appends it. -/
lemma setItem_of_notMem {fields : List (String × Json)} {key : String} (value : Json)
    (h : key ∉ fields.map Prod.fst) : setItem fields key value = fields ++ [(key, value)] := by
  rw [setItem, if_neg h]

/-- Updating with distinct new keys appends them. -/
theorem update_of_disjoint {fields other : List (String × Json)}
    (hnodup : (other.map Prod.fst).Nodup)
    (hnew : ∀ k ∈ other.map Prod.fst, k ∉ fields.map Prod.fst) :
    update fields other = fields ++ other := by
  induction other generalizing fields with
  | nil => exact (List.append_nil _).symm
  | cons kv other ih =>
    obtain ⟨k, v⟩ := kv
    rw [List.map_cons, List.nodup_cons] at hnodup
    have hk : k ∉ fields.map Prod.fst := hnew k (by simp)
    have hstep : update fields ((k, v) :: other) = update (fields ++ [(k, v)]) other := by
      rw [update, List.foldl_cons, setItem_of_notMem v hk]
      rfl
    have hnew' : ∀ k' ∈ other.map Prod.fst, k' ∉ (fields ++ [(k, v)]).map Prod.fst := by
      intro k' hk'
      rw [List.map_append, List.mem_append, not_or]
      refine ⟨hnew k' (List.mem_cons_of_mem _ hk'), ?_⟩
      rw [List.map_singleton, List.mem_singleton]
      rintro rfl
      exact hnodup.1 hk'
    rw [hstep, ih hnodup.2 hnew', List.append_assoc, List.singleton_append]

end Json
