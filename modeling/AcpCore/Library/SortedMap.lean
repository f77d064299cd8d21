import Mathlib.Data.List.Lex
import Mathlib.Order.Lattice

/-!
# Sorted maps

A map as the list of its entries in the order of their keys, which is the order they are
visited in.

## What is proved

* `place_sorted` — an entry is put where its key belongs;
* `get_insert` — what is found after an insertion;
* `insertAll_entries` — entries that come in order are inserted as they are.
-/

namespace AcpCore

variable {κ ν : Type} [LinearOrder κ]

/-- A map whose entries are in the order of their keys. -/
@[ext] structure SortedMap (κ ν : Type) [LinearOrder κ] where
  /-- The entries. -/
  entries : List (κ × ν)
  /-- Their keys increase. -/
  sorted : entries.Pairwise fun a b => a.1 < b.1

instance [DecidableEq κ] [DecidableEq ν] : DecidableEq (SortedMap κ ν) := fun m n =>
  decidable_of_iff (m.entries = n.entries) (by rw [SortedMap.ext_iff])

namespace SortedMap

/-- Put an entry where its key belongs, in the place of the one that has its key. -/
def place (k : κ) (v : ν) : List (κ × ν) → List (κ × ν)
  | [] => [(k, v)]
  | e :: es =>
    if k < e.1 then (k, v) :: e :: es
    else if k = e.1 then (k, v) :: es
    else e :: place k v es

theorem mem_place {k : κ} {v : ν} {es : List (κ × ν)} {e : κ × ν} (h : e ∈ place k v es) : e = (k, v) ∨ e ∈ es := by
  induction es with
  | nil => exact .inl (List.mem_singleton.mp h)
  | cons e' es ih =>
    rw [place] at h
    split_ifs at h
    · exact List.mem_cons.mp h
    · exact (List.mem_cons.mp h).imp id (List.mem_cons_of_mem e')
    · rcases List.mem_cons.mp h with rfl | h
      · exact .inr List.mem_cons_self
      · exact (ih h).imp id (List.mem_cons_of_mem e')

theorem place_sorted {k : κ} {v : ν} {es : List (κ × ν)} (h : es.Pairwise fun a b => a.1 < b.1) :
    (place k v es).Pairwise fun a b => a.1 < b.1 := by
  induction es with
  | nil => exact List.pairwise_singleton _ _
  | cons e es ih =>
    obtain ⟨hhead, htail⟩ := List.pairwise_cons.mp h
    rw [place]
    split_ifs with hlt heq
    · refine List.pairwise_cons.mpr ⟨fun e' he' => ?_, h⟩
      rcases List.mem_cons.mp he' with rfl | he'
      · exact hlt
      · exact hlt.trans (hhead e' he')
    · exact List.pairwise_cons.mpr ⟨fun e' he' => heq ▸ hhead e' he', htail⟩
    · refine List.pairwise_cons.mpr ⟨fun e' he' => ?_, ih htail⟩
      rcases mem_place he' with rfl | he'
      · exact lt_of_le_of_ne (not_lt.mp hlt) (Ne.symm heq)
      · exact hhead e' he'

/-- The map of no entry. -/
def empty : SortedMap κ ν := ⟨[], .nil⟩

/-- The map with an entry more, or with another value for its key. -/
def insert (m : SortedMap κ ν) (k : κ) (v : ν) : SortedMap κ ν := ⟨place k v m.entries, place_sorted m.sorted⟩

/-- The value of a key. -/
def get (m : SortedMap κ ν) (k : κ) : Option ν := (m.entries.find? (·.1 = k)).map Prod.snd

@[simp] theorem get_empty (k : κ) : (empty : SortedMap κ ν).get k = none := rfl

/-- What is found after an insertion. -/
@[simp] theorem get_insert (m : SortedMap κ ν) (k : κ) (v : ν) (k' : κ) :
    (m.insert k v).get k' = if k = k' then some v else m.get k' := by
  obtain ⟨es, hes⟩ := m
  show ((place k v es).find? (·.1 = k')).map Prod.snd = if k = k' then some v else (es.find? (·.1 = k')).map Prod.snd
  clear hes
  induction es with
  | nil => by_cases h : k = k' <;> simp [place, h]
  | cons e es ih =>
    rw [place]
    by_cases hk : k = k'
    · subst hk
      rw [if_pos rfl] at ih ⊢
      split_ifs with hlt heq
      · simp
      · simp
      · rw [List.find?_cons_of_neg (by simpa using Ne.symm heq), ih]
    · rw [if_neg hk] at ih ⊢
      split_ifs with hlt heq
      · rw [List.find?_cons_of_neg (by simpa using hk)]
      · rw [List.find?_cons_of_neg (by simpa using hk), List.find?_cons_of_neg (by simpa [← heq] using hk)]
      · rw [List.find?_cons, List.find?_cons]
        split
        · rfl
        · exact ih

/-- Entries inserted one after another. -/
def insertAll (m : SortedMap κ ν) (es : List (κ × ν)) : SortedMap κ ν := es.foldl (fun m e => m.insert e.1 e.2) m

theorem place_of_forall_lt {k : κ} {v : ν} {es : List (κ × ν)} (h : ∀ e ∈ es, e.1 < k) : place k v es = es ++ [(k, v)] := by
  induction es with
  | nil => rfl
  | cons e es ih =>
    obtain ⟨he, hes⟩ := List.forall_mem_cons.mp h
    rw [place, if_neg he.le.not_gt, if_neg he.ne', ih hes, List.cons_append]

/-- Entries that come in order are inserted as they are. -/
theorem insertAll_entries {es : List (κ × ν)} (m : SortedMap κ ν) (h : (m.entries ++ es).Pairwise fun a b => a.1 < b.1) :
    (m.insertAll es).entries = m.entries ++ es := by
  induction es generalizing m with
  | nil => exact (List.append_nil _).symm
  | cons e es ih =>
    have hplace : (m.insert e.1 e.2).entries = m.entries ++ [e] := by
      refine place_of_forall_lt fun e' he' => ?_
      exact (List.pairwise_append.mp h).2.2 e' he' e List.mem_cons_self
    rw [insertAll, List.foldl_cons, ← insertAll, ih, hplace, List.append_assoc, List.singleton_append]
    rwa [hplace, List.append_assoc, List.singleton_append]

end SortedMap

end AcpCore
