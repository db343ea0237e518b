import Mathlib

/-!
# A key-value store whose entries expire

The part of a Redis keyspace that `GET`, `SETEX`, `SET NX EX` and `DEL` can observe: a
partial map to cells with an expiry time. An expired cell may linger in the map, but no
operation sees it.
-/

namespace TtlStore

/-- A stored value and the instant from which it is gone. -/
structure Cell (τ α : Type*) where
  value : α
  expireAt : τ

/-- A keyspace. -/
abbrev Store (κ τ α : Type*) := κ → Option (Cell τ α)

variable {κ τ α : Type*} [LT τ] [DecidableLT τ]

/-- The value a cell still shows at `now`. -/
def Cell.live (now : τ) (cell : Cell τ α) : Option α :=
  if now < cell.expireAt then some cell.value else none

/-- `GET`. -/
def get (s : Store κ τ α) (now : τ) (k : κ) : Option α :=
  (s k).bind (Cell.live now)

variable [DecidableEq κ]

/-- `SETEX`: store a value that lives until `expireAt`. -/
def setEx (s : Store κ τ α) (k : κ) (v : α) (expireAt : τ) : Store κ τ α :=
  Function.update s k (some ⟨v, expireAt⟩)

/-- `DEL`. -/
def del (s : Store κ τ α) (k : κ) : Store κ τ α := Function.update s k none

/-- `SET NX EX`: store only where nothing is visible, and say whether it was stored. -/
def setNx (s : Store κ τ α) (now : τ) (k : κ) (v : α) (expireAt : τ) : Bool × Store κ τ α :=
  match get s now k with
  | none => (true, setEx s k v expireAt)
  | some _ => (false, s)

/-- Change the value of a key in place; its expiry time stays. -/
def modify (s : Store κ τ α) (k : κ) (f : α → α) : Store κ τ α :=
  Function.update s k ((s k).map fun cell => { cell with value := f cell.value })

variable {s : Store κ τ α} {k k' : κ} {v : α} {now expireAt : τ}

omit [DecidableEq κ] in
lemma get_eq_some_iff {v : α} :
    get s now k = some v ↔ ∃ cell, s k = some cell ∧ now < cell.expireAt ∧ cell.value = v := by
  unfold get Cell.live
  cases s k with
  | none => simp
  | some cell => simp

omit [DecidableEq κ] in
lemma get_of_cell {cell : Cell τ α} (h : s k = some cell) (hlt : now < cell.expireAt) :
    get s now k = some cell.value :=
  get_eq_some_iff.mpr ⟨cell, h, hlt, rfl⟩

omit [DecidableEq κ] in
lemma get_of_absent (h : s k = none) : get s now k = none := by
  rw [get, h]
  rfl

omit [LT τ] [DecidableLT τ] in
@[simp] lemma setEx_self : setEx s k v expireAt k = some ⟨v, expireAt⟩ := Function.update_self ..

omit [LT τ] [DecidableLT τ] in
@[simp] lemma setEx_of_ne (h : k' ≠ k) : setEx s k v expireAt k' = s k' :=
  Function.update_of_ne h ..

omit [LT τ] [DecidableLT τ] in
@[simp] lemma del_self : del s k k = none := Function.update_self ..

omit [LT τ] [DecidableLT τ] in
@[simp] lemma del_of_ne (h : k' ≠ k) : del s k k' = s k' := Function.update_of_ne h ..

omit [LT τ] [DecidableLT τ] in
lemma modify_self (f : α → α) :
    modify s k f k = (s k).map fun cell => { cell with value := f cell.value } :=
  Function.update_self ..

omit [LT τ] [DecidableLT τ] in
@[simp] lemma modify_of_ne (h : k' ≠ k) (f : α → α) : modify s k f k' = s k' :=
  Function.update_of_ne h ..

lemma get_modify_self (f : α → α) : get (modify s k f) now k = (get s now k).map f := by
  rw [get, modify_self, get]
  cases s k with
  | none => rfl
  | some cell =>
    simp only [Option.map_some, Option.bind_some, Cell.live]
    split <;> rfl

lemma get_setEx_self :
    get (setEx s k v expireAt) now k = if now < expireAt then some v else none := by
  rw [get, setEx_self]
  rfl

omit [DecidableEq κ] in
/-- What a key shows depends on its own cell only. -/
lemma get_congr {s s' : Store κ τ α} (h : s k = s' k) : get s now k = get s' now k := by
  rw [get, get, h]

/-- A refused `SET NX` changes nothing. -/
lemma setNx_of_some {w : α} (h : get s now k = some w) : setNx s now k v expireAt = (false, s) := by
  rw [setNx, h]

/-- An accepted `SET NX` is a `SETEX`. -/
lemma setNx_of_none (h : get s now k = none) :
    setNx s now k v expireAt = (true, setEx s k v expireAt) := by
  rw [setNx, h]

/-! ## Values kept in another form -/

section Map

variable {β : Type*} {f : α → β}

/-- The keyspace with `f` of every value in its place. -/
def map (f : α → β) (s : Store κ τ α) : Store κ τ β := fun k =>
  (s k).map fun cell => ⟨f cell.value, cell.expireAt⟩

omit [DecidableEq κ] in
/-- What expires does so in every form. -/
theorem get_map : get (map f s) now k = (get s now k).map f := by
  rw [get, map, get]
  cases s k with
  | none => rfl
  | some cell =>
    simp only [Option.map_some, Option.bind_some, Cell.live]
    split <;> rfl

omit [LT τ] [DecidableLT τ] in
theorem map_setEx : map f (setEx s k v expireAt) = setEx (map f s) k (f v) expireAt := by
  funext k'
  by_cases hk : k' = k
  · rw [hk, setEx_self, map, setEx_self]
    rfl
  · rw [setEx_of_ne hk, map, setEx_of_ne hk]
    rfl

omit [LT τ] [DecidableLT τ] in
theorem map_del : map f (del s k) = del (map f s) k := by
  funext k'
  by_cases hk : k' = k
  · rw [hk, del_self, map, del_self]
    rfl
  · rw [del_of_ne hk, map, del_of_ne hk]
    rfl

theorem setNx_map :
    setNx (map f s) now k (f v) expireAt =
      ((setNx s now k v expireAt).1, map f (setNx s now k v expireAt).2) := by
  cases h : get s now k with
  | none =>
    have hnone : get (map f s) now k = none := by rw [get_map, h]; rfl
    rw [setNx_of_none h, setNx_of_none hnone, map_setEx]
  | some w =>
    have hsome : get (map f s) now k = some (f w) := by rw [get_map, h]; rfl
    rw [setNx_of_some h, setNx_of_some hsome]

end Map

end TtlStore
