/-
  NetworkingFinal.Py.Dict

  Python's `dict`: a finite map that remembers the order in which its keys were
  first stored.  Storing under a present key keeps the key's place, storing
  under a new key appends it.  The keys are distinct by construction.
-/
import Mathlib.Data.List.Nodup
import Mathlib.Logic.Equiv.List

namespace NetworkingFinal
namespace Py

/-- A dictionary: its items in insertion order, no key twice. -/
structure Dict (κ ν : Type) where
  entries : List (κ × ν)
  nodup : (entries.map Prod.fst).Nodup
  deriving DecidableEq

namespace Dict

variable {κ ν : Type} [DecidableEq κ]

/-- `{}` -/
def empty : Dict κ ν := ⟨[], List.nodup_nil⟩

/-- `list(d)` -/
def keys (d : Dict κ ν) : List κ := d.entries.map Prod.fst

/-- `len(d)` -/
def size (d : Dict κ ν) : Nat := d.entries.length

/-- `d.get(k)` -/
def get? (d : Dict κ ν) (k : κ) : Option ν := d.entries.lookup k

/-- The items after `d[k] = v`. -/
def setEntry (k : κ) (v : ν) : List (κ × ν) → List (κ × ν)
  | [] => [(k, v)]
  | (j, w) :: es => if j = k then (k, v) :: es else (j, w) :: setEntry k v es

theorem mem_keys_setEntry (k : κ) (v : ν) (j : κ) (es : List (κ × ν)) :
    j ∈ (setEntry k v es).map Prod.fst ↔ j = k ∨ j ∈ es.map Prod.fst := by
  induction es with
  | nil => simp [setEntry]
  | cons e es ih =>
      obtain ⟨i, w⟩ := e
      by_cases hi : i = k
      · subst hi
        simp [setEntry]
      · simp only [setEntry, if_neg hi, List.map_cons, List.mem_cons, ih]
        tauto

theorem nodup_setEntry (k : κ) (v : ν) (es : List (κ × ν))
    (h : (es.map Prod.fst).Nodup) : ((setEntry k v es).map Prod.fst).Nodup := by
  induction es with
  | nil => simp [setEntry]
  | cons e es ih =>
      obtain ⟨i, w⟩ := e
      rw [List.map_cons, List.nodup_cons] at h
      by_cases hi : i = k
      · subst hi
        simpa [setEntry] using h
      · simp only [setEntry, if_neg hi, List.map_cons, List.nodup_cons]
        refine ⟨?_, ih h.2⟩
        rw [mem_keys_setEntry]
        rintro (hk | hmem)
        · exact hi hk
        · exact h.1 hmem

/-- `d[k] = v` -/
def set (d : Dict κ ν) (k : κ) (v : ν) : Dict κ ν :=
  ⟨setEntry k v d.entries, nodup_setEntry k v d.entries d.nodup⟩

/-- `for k in e: d[k] = e[k]` -/
def update (d e : Dict κ ν) : Dict κ ν := e.entries.foldl (fun d kv => d.set kv.1 kv.2) d

omit [DecidableEq κ] in
theorem nodup_filter (f : κ → Bool) (d : Dict κ ν) :
    ((d.entries.filter (fun e => f e.1)).map Prod.fst).Nodup :=
  d.nodup.sublist (List.filter_sublist.map Prod.fst)

/-- The items whose keys satisfy `f`, in their order. -/
def filterKeys (f : κ → Bool) (d : Dict κ ν) : Dict κ ν :=
  ⟨d.entries.filter (fun e => f e.1), nodup_filter f d⟩

/-- `del d[k]`, where the key may be absent. -/
def erase (d : Dict κ ν) (k : κ) : Dict κ ν := d.filterKeys (· ≠ k)

-- ============================================================================
-- Lookups
-- ============================================================================

theorem lookup_cons_ite (i j : κ) (w : ν) (es : List (κ × ν)) :
    ((i, w) :: es).lookup j = if j = i then some w else es.lookup j := by
  rw [List.lookup_cons]
  by_cases hj : j = i
  · simp [hj]
  · rw [beq_eq_false_iff_ne.mpr hj, if_neg hj]

theorem lookup_setEntry (k j : κ) (v : ν) (es : List (κ × ν)) :
    (setEntry k v es).lookup j = if j = k then some v else es.lookup j := by
  induction es with
  | nil => rw [setEntry, lookup_cons_ite]
  | cons e es ih =>
      obtain ⟨i, w⟩ := e
      by_cases hi : i = k
      · subst hi
        rw [setEntry, if_pos rfl, lookup_cons_ite, lookup_cons_ite]
        split <;> rfl
      · rw [setEntry, if_neg hi, lookup_cons_ite, lookup_cons_ite, ih]
        by_cases hj : j = i
        · subst hj
          rw [if_pos rfl, if_neg hi, if_pos rfl]
        · rw [if_neg hj, if_neg hj]

theorem lookup_filter (f : κ → Bool) (j : κ) (es : List (κ × ν)) :
    (es.filter (fun e => f e.1)).lookup j = if f j then es.lookup j else none := by
  induction es with
  | nil => simp
  | cons e es ih =>
      obtain ⟨i, w⟩ := e
      by_cases hi : f i = true
      · rw [List.filter_cons_of_pos (by simpa using hi), lookup_cons_ite, lookup_cons_ite, ih]
        by_cases hj : j = i
        · subst hj
          simp [hi]
        · simp [hj]
      · rw [List.filter_cons_of_neg (by simpa using hi), ih, lookup_cons_ite]
        by_cases hj : j = i
        · subst hj
          simp [hi]
        · simp [hj]

@[simp] theorem get?_empty (k : κ) : (empty : Dict κ ν).get? k = none := rfl

theorem get?_set (d : Dict κ ν) (k j : κ) (v : ν) :
    (d.set k v).get? j = if j = k then some v else d.get? j :=
  lookup_setEntry k j v d.entries

@[simp] theorem get?_set_self (d : Dict κ ν) (k : κ) (v : ν) :
    (d.set k v).get? k = some v := by
  rw [get?_set, if_pos rfl]

theorem get?_set_of_ne {d : Dict κ ν} {k j : κ} {v : ν} (h : j ≠ k) :
    (d.set k v).get? j = d.get? j := by
  rw [get?_set, if_neg h]

theorem get?_filterKeys (f : κ → Bool) (d : Dict κ ν) (k : κ) :
    (d.filterKeys f).get? k = if f k then d.get? k else none :=
  lookup_filter f k d.entries

theorem get?_erase (d : Dict κ ν) (k j : κ) :
    (d.erase k).get? j = if j = k then none else d.get? j := by
  rw [erase, get?_filterKeys]
  by_cases hj : j = k <;> simp [hj]

@[simp] theorem get?_erase_self (d : Dict κ ν) (k : κ) : (d.erase k).get? k = none := by
  rw [get?_erase, if_pos rfl]

theorem get?_erase_of_ne {d : Dict κ ν} {k j : κ} (h : j ≠ k) :
    (d.erase k).get? j = d.get? j := by
  rw [get?_erase, if_neg h]

-- ============================================================================
-- Keys and sizes
-- ============================================================================

theorem mem_keys_iff (d : Dict κ ν) (k : κ) : k ∈ d.keys ↔ ∃ v, d.get? k = some v := by
  unfold keys get?
  induction d.entries with
  | nil => simp
  | cons e es ih =>
      obtain ⟨i, w⟩ := e
      rw [List.map_cons, List.mem_cons, ih, lookup_cons_ite]
      by_cases hk : k = i
      · simp [hk]
      · simp [hk]

theorem get?_eq_none_iff (d : Dict κ ν) (k : κ) : d.get? k = none ↔ k ∉ d.keys := by
  rw [mem_keys_iff, Option.eq_none_iff_forall_ne_some]
  push Not
  rfl

theorem mem_keys_set (d : Dict κ ν) (k j : κ) (v : ν) :
    j ∈ (d.set k v).keys ↔ j = k ∨ j ∈ d.keys :=
  mem_keys_setEntry k v j d.entries

theorem mem_keys_filterKeys (f : κ → Bool) (d : Dict κ ν) (k : κ) :
    k ∈ (d.filterKeys f).keys ↔ f k = true ∧ k ∈ d.keys := by
  rw [mem_keys_iff, mem_keys_iff]
  by_cases hk : f k = true <;> simp [get?_filterKeys, hk]

theorem mem_keys_erase (d : Dict κ ν) (k j : κ) :
    j ∈ (d.erase k).keys ↔ j ≠ k ∧ j ∈ d.keys := by
  rw [erase, mem_keys_filterKeys]
  simp

omit [DecidableEq κ] in
theorem size_eq_length_keys (d : Dict κ ν) : d.size = d.keys.length := by
  simp [size, keys]

/-- A new key comes last. -/
theorem entries_set_of_notMem {d : Dict κ ν} {k : κ} {v : ν} (h : k ∉ d.keys) :
    (d.set k v).entries = d.entries ++ [(k, v)] := by
  obtain ⟨es, hnd⟩ := d
  simp only [keys, set] at h ⊢
  clear hnd
  induction es with
  | nil => rfl
  | cons e es ih =>
      obtain ⟨i, w⟩ := e
      rw [List.map_cons, List.mem_cons, not_or] at h
      rw [setEntry, if_neg (fun hi => h.1 hi.symm), ih h.2, List.cons_append]

theorem size_set_of_notMem {d : Dict κ ν} {k : κ} {v : ν} (h : k ∉ d.keys) :
    (d.set k v).size = d.size + 1 := by
  rw [size, entries_set_of_notMem h, List.length_append, size, List.length_singleton]

theorem filter_setEntry (f : κ → Bool) (k : κ) (v : ν) (es : List (κ × ν)) :
    (setEntry k v es).filter (fun e => f e.1) =
      if f k then setEntry k v (es.filter (fun e => f e.1))
      else es.filter (fun e => f e.1) := by
  induction es with
  | nil => by_cases hk : f k = true <;> simp [setEntry, hk]
  | cons e es ih =>
      obtain ⟨i, w⟩ := e
      by_cases hi : i = k
      · subst hi
        by_cases hf : f i = true <;> simp [setEntry, hf]
      · by_cases hf : f i = true <;> by_cases hk : f k = true <;>
          simp_all [setEntry]

/-- Storing under a key commutes with selecting keys. -/
theorem filterKeys_set (f : κ → Bool) (d : Dict κ ν) (k : κ) (v : ν) :
    (d.set k v).filterKeys f = if f k then (d.filterKeys f).set k v else d.filterKeys f := by
  have h := filter_setEntry f k v d.entries
  split
  · next hk =>
      rw [if_pos hk] at h
      simp only [filterKeys, set, mk.injEq]
      exact h
  · next hk =>
      rw [if_neg hk] at h
      simp only [filterKeys, set, mk.injEq]
      exact h

omit [DecidableEq κ] in
theorem filterKeys_filterKeys (f g : κ → Bool) (d : Dict κ ν) :
    (d.filterKeys f).filterKeys g = (d.filterKeys g).filterKeys f := by
  simp [filterKeys, List.filter_filter, Bool.and_comm]

theorem lookup_eq_none_of_notMem {k : κ} {es : List (κ × ν)} (h : k ∉ es.map Prod.fst) :
    es.lookup k = none := by
  rw [List.lookup_eq_none_iff]
  intro p hp
  have hne : p.1 ≠ k := fun he => h (List.mem_map.mpr ⟨p, hp, he⟩)
  simpa using Ne.symm hne

theorem get?_foldl_set {es : List (κ × ν)} (h : (es.map Prod.fst).Nodup) (d : Dict κ ν) (k : κ) :
    (es.foldl (fun d kv => d.set kv.1 kv.2) d).get? k = (es.lookup k).or (d.get? k) := by
  induction es generalizing d with
  | nil => rfl
  | cons e es ih =>
      obtain ⟨i, w⟩ := e
      rw [List.map_cons, List.nodup_cons] at h
      rw [List.foldl_cons, ih h.2, lookup_cons_ite, get?_set]
      by_cases hk : k = i
      · subst hk
        simp [lookup_eq_none_of_notMem h.1]
      · simp [hk]

/-- A lookup after an update finds what the update stored first. -/
theorem get?_update (d e : Dict κ ν) (k : κ) : (d.update e).get? k = (e.get? k).or (d.get? k) :=
  get?_foldl_set e.nodup d k

/-- The items of a dictionary are the pairs its lookups return. -/
theorem mem_entries_iff (d : Dict κ ν) (k : κ) (v : ν) :
    (k, v) ∈ d.entries ↔ d.get? k = some v := by
  obtain ⟨es, hnd⟩ := d
  simp only [get?]
  induction es with
  | nil => simp
  | cons e es ih =>
      obtain ⟨i, w⟩ := e
      rw [List.map_cons, List.nodup_cons] at hnd
      rw [lookup_cons_ite, List.mem_cons, ih hnd.2]
      by_cases hk : k = i
      · subst hk
        simp [lookup_eq_none_of_notMem hnd.1, eq_comm]
      · simp [hk]

instance : Encodable Char := Encodable.ofLeftInverse Char.toNat Char.ofNat Char.ofNat_toNat

instance [Encodable κ] [Encodable ν] : Encodable (Dict κ ν) :=
  Encodable.ofLeftInjection entries
    (fun es => if h : (es.map Prod.fst).Nodup then some ⟨es, h⟩ else none)
    fun d => dif_pos d.nodup

end Dict

end Py
end NetworkingFinal
