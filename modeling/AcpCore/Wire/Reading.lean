import AcpCore.Wire.Value

/-!
# Reading a tree

What a JSON reader makes of a tree: the value it says, a number as the reader takes
its literal (`Value.read`).

* `Value.unique_read` — what is read has no name twice in an object.
-/

namespace AcpCore.Wire

open AcpCore.Text AcpCore.Json

variable (num : Literal → Option Number)

mutual

/-- The value of a tree; of members of one name the last wins. -/
def Value.read : Tree → Option Value
  | .null => some .null
  | .bool b => some (.bool b)
  | .num l => (num l).map .number
  | .str s => some (.string s)
  | .arr ts => (readItems ts).map .array
  | .obj ms => (readMembers [] ms).map .object

/-- The values of items. -/
def readItems : List Tree → Option (List Value)
  | [] => some []
  | t :: ts => (Value.read t).bind fun v => (readItems ts).map fun vs => v :: vs

/-- The map of members, inserted one after another. -/
def readMembers (acc : Map) : List (Str × Tree) → Option Map
  | [] => some acc
  | (k, t) :: ms => (Value.read t).bind fun v => readMembers (Map.insert acc k v) ms

end

variable {num}

/-- The value of a tree has no name twice in a map. -/
theorem Value.unique_read {t : Tree} : ∀ {v : Value}, Value.read num t = some v → v.Unique := by
  induction t using Tree.ind with
  | null | bool | str =>
    intro v h
    cases h
    trivial
  | num l =>
    intro v h
    obtain ⟨n, -, rfl⟩ := Option.map_eq_some_iff.mp h
    trivial
  | arr ts ih =>
    intro v h
    obtain ⟨vs, hvs, rfl⟩ := Option.map_eq_some_iff.mp h
    show UniqueItems vs
    clear h
    induction ts generalizing vs with
    | nil => cases hvs; trivial
    | cons t ts ihs =>
      rw [readItems, Option.bind_eq_some_iff] at hvs
      obtain ⟨w, hw, hvs⟩ := hvs
      obtain ⟨ws, hws, rfl⟩ := Option.map_eq_some_iff.mp hvs
      exact ⟨ih t List.mem_cons_self hw, ihs (fun u hu => ih u (List.mem_cons_of_mem t hu)) ws hws⟩
  | obj ms ih =>
    intro v h
    obtain ⟨ns, hns, rfl⟩ := Option.map_eq_some_iff.mp h
    show (ns.map Prod.fst).Nodup ∧ UniqueMembers ns
    have hacc : ∀ acc : Map, (acc.map Prod.fst).Nodup → UniqueMembers acc → readMembers num acc ms = some ns →
        (ns.map Prod.fst).Nodup ∧ UniqueMembers ns := by
      clear h hns
      induction ms with
      | nil =>
        intro acc hn hu h
        cases h
        exact ⟨hn, hu⟩
      | cons m ms ihs =>
        intro acc hn hu h
        rw [readMembers, Option.bind_eq_some_iff] at h
        obtain ⟨w, hw, h⟩ := h
        exact ihs (fun u hu => ih u (List.mem_cons_of_mem m hu)) _ (Map.nodup_insert hn)
          (Map.uniqueMembers_insert hu (ih m List.mem_cons_self hw)) h
    exact hacc [] List.nodup_nil trivial hns

end AcpCore.Wire
