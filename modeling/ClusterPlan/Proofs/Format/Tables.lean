import ClusterPlan.Format.Datum
import Mathlib.Data.List.Perm.Basic

/-!
# Tables by ascending keys

A table is kept with its keys in ascending order, so that two tables with the same entries are equal (`Ascending.eq_of_perm`).
Entries of different keys are put into that order without loss (`perm_ascending`).
-/

namespace ClusterPlan.Datum

/-- Putting a number under a key adds no other entry. -/
theorem mem_insertEntry {key : Int} {n : Nat} {entries : List (Int × Nat)} {entry : Int × Nat}
    (h : entry ∈ insertEntry key n entries) : entry = (key, n) ∨ entry ∈ entries := by
  induction entries with
  | nil => exact Or.inl (List.mem_singleton.1 h)
  | cons first entries ih =>
    rw [insertEntry] at h
    split at h
    · exact List.mem_cons.1 h
    · split at h
      · obtain rfl | h := List.mem_cons.1 h
        · exact Or.inr List.mem_cons_self
        · exact (ih h).imp_right (List.mem_cons_of_mem _)
      · exact (List.mem_cons.1 h).imp_right (List.mem_cons_of_mem _)

/-- The order of the keys is kept. -/
theorem Ascending.insertEntry {entries : List (Int × Nat)} (h : Ascending entries) (key : Int) (n : Nat) :
    Ascending (insertEntry key n entries) := by
  induction entries with
  | nil => exact List.pairwise_singleton _ _
  | cons first entries ih =>
    obtain ⟨hfirst, hentries⟩ := List.pairwise_cons.1 h
    rw [Datum.insertEntry]
    split
    · next hlt => exact List.pairwise_cons.2 ⟨List.forall_mem_cons.2 ⟨hlt, fun e he => Int.lt_trans hlt (hfirst e he)⟩, h⟩
    · next hnot =>
      split
      · next hlt =>
        refine List.pairwise_cons.2 ⟨fun e he => ?_, ih hentries⟩
        obtain rfl | he := mem_insertEntry he
        · exact hlt
        · exact hfirst e he
      · next hnot' =>
        have hkey : first.1 = key := Int.le_antisymm (Int.not_lt.1 hnot) (Int.not_lt.1 hnot')
        exact List.pairwise_cons.2 ⟨hkey ▸ hfirst, hentries⟩

/-- A new key comes in addition to those that are there. -/
theorem perm_insertEntry {key : Int} {entries : List (Int × Nat)} (h : key ∉ entries.map (·.1)) (n : Nat) :
    (insertEntry key n entries).Perm ((key, n) :: entries) := by
  induction entries with
  | nil => exact .refl _
  | cons first entries ih =>
    rw [List.map_cons, List.mem_cons, not_or] at h
    rw [insertEntry]
    split
    · exact .refl _
    · next hnot =>
      have hlt : first.1 < key := by omega
      rw [if_pos hlt]
      exact ((ih h.2).cons first).trans (.swap _ _ _)

/-- Sorting puts the entries in ascending order of their keys. -/
theorem ascending_ascending (entries : List (Int × Nat)) : Ascending (ascending entries) := by
  have hfold : ∀ rest sorted : List (Int × Nat), Ascending sorted →
      Ascending (rest.foldl (fun sorted entry => insertEntry entry.1 entry.2 sorted) sorted) := by
    intro rest
    induction rest with
    | nil => exact fun _ h => h
    | cons entry rest ih => exact fun sorted h => ih _ (h.insertEntry entry.1 entry.2)
  exact hfold entries [] .nil

/-- Entries of different keys are all kept. -/
theorem perm_ascending {entries : List (Int × Nat)} (h : (entries.map (·.1)).Nodup) : (ascending entries).Perm entries := by
  have hfold : ∀ rest sorted : List (Int × Nat), ((rest ++ sorted).map (·.1)).Nodup →
      (rest.foldl (fun sorted entry => insertEntry entry.1 entry.2 sorted) sorted).Perm (rest ++ sorted) := by
    intro rest
    induction rest with
    | nil => exact fun _ _ => .refl _
    | cons entry rest ih =>
      intro sorted hnodup
      rw [List.cons_append, List.map_cons, List.nodup_cons, List.map_append, List.mem_append, not_or] at hnodup
      have hinsert : (insertEntry entry.1 entry.2 sorted).Perm (entry :: sorted) := perm_insertEntry hnodup.1.2 entry.2
      have hall : (rest ++ insertEntry entry.1 entry.2 sorted).Perm (entry :: (rest ++ sorted)) :=
        (hinsert.append_left rest).trans List.perm_middle
      refine (ih _ ?_).trans hall
      rw [(hall.map (·.1)).nodup_iff, List.map_cons, List.nodup_cons, List.map_append, List.mem_append, not_or]
      exact hnodup
  have hperm := hfold entries [] (by rwa [List.append_nil])
  rwa [List.append_nil] at hperm

/-- In ascending order no key stands twice. -/
theorem Ascending.nodup_keys {entries : List (Int × Nat)} (h : Ascending entries) : (entries.map (·.1)).Nodup :=
  List.pairwise_map.2 (List.Pairwise.imp Int.ne_of_lt h)

/-- There is one order of the entries of a table. -/
theorem Ascending.eq_of_perm {entries listed : List (Int × Nat)} (h : Ascending entries) (h' : Ascending listed)
    (hperm : listed.Perm entries) : listed = entries :=
  List.Perm.eq_of_pairwise (fun _ _ _ _ hlt hgt => absurd hlt (Int.lt_asymm hgt)) h' h hperm

end ClusterPlan.Datum
