import ClusterPlan.Proofs.Context.Entity
import Mathlib.Data.List.Nodup
import Mathlib.Data.List.Perm.Subperm

/-!
# Tables of originals and copies

A session keeps tables of pairs, an original with its copy. Originals are paired with copies one to one, and the copies are
exactly the entities that were added (`Tabulates`).
-/

namespace ClusterPlan.Duplication

/-! ## Pairs -/

section Pairs

variable {κ ν : Type} {l : List (κ × ν)} {k k' : κ} {v v' : ν}

/-- In a table with different keys a key has one value. -/
theorem value_unique (hl : (l.map (·.1)).Nodup) (h : (k, v) ∈ l) (h' : (k, v') ∈ l) : v = v' :=
  congrArg Prod.snd (List.inj_on_of_nodup_map hl h h' rfl)

/-- In a table with different values a value has one key. -/
theorem key_unique (hl : (l.map (·.2)).Nodup) (h : (k, v) ∈ l) (h' : (k', v) ∈ l) : k = k' :=
  congrArg Prod.fst (List.inj_on_of_nodup_map hl h h' rfl)

variable [BEq κ] [LawfulBEq κ]

/-- The first entry of a table is looked at first. -/
theorem lookup_cons_eq_ite [DecidableEq κ] (k : κ) (entry : κ × ν) (l : List (κ × ν)) :
    (entry :: l).lookup k = if k = entry.1 then some entry.2 else l.lookup k := by
  by_cases h : k = entry.1
  · rw [if_pos h, h, List.lookup_cons_self]
  · rw [if_neg h, List.lookup_cons, beq_false_of_ne h]

/-- What is found under a key is in the table. -/
theorem mem_of_lookup (h : l.lookup k = some v) : (k, v) ∈ l := by
  obtain ⟨l₁, l₂, heq, -⟩ := List.lookup_eq_some_iff.1 h
  rw [heq]
  exact List.mem_append_right _ List.mem_cons_self

/-- A key under which nothing is found is none of the table. -/
theorem not_mem_keys_of_lookup (h : l.lookup k = none) : k ∉ l.map (·.1) := by
  intro hmem
  obtain ⟨p, hp, heq⟩ := List.mem_map.1 hmem
  have hne := List.lookup_eq_none_iff.1 h p hp
  rw [heq] at hne
  simp at hne

/-- In a table with different keys the value of each entry is found under its key. -/
theorem lookup_of_mem (hl : (l.map (·.1)).Nodup) (h : (k, v) ∈ l) : l.lookup k = some v := by
  cases hk : l.lookup k with
  | none => exact absurd (List.mem_map_of_mem h) (not_mem_keys_of_lookup hk)
  | some v' => rw [value_unique hl h (mem_of_lookup hk)]

/-- A table with different values, extended by a function that avoids them. -/
theorem injective_lookup_getD {l : List (κ × κ)} {f : κ → κ} (hl : (l.map (·.2)).Nodup) (hf : Function.Injective f)
    (hne : ∀ k, f k ∉ l.map (·.2)) : Function.Injective fun k => (l.lookup k).getD (f k) := by
  intro a b hab
  dsimp only at hab
  cases ha : l.lookup a with
  | none =>
    cases hb : l.lookup b with
    | none =>
      rw [ha, hb] at hab
      exact hf hab
    | some v =>
      rw [ha, hb, Option.getD_none, Option.getD_some] at hab
      exact absurd (List.mem_map_of_mem (mem_of_lookup hb)) (hab ▸ hne a)
  | some v =>
    cases hb : l.lookup b with
    | none =>
      rw [ha, hb, Option.getD_none, Option.getD_some] at hab
      exact absurd (List.mem_map_of_mem (mem_of_lookup ha)) (hab ▸ hne b)
    | some w =>
      rw [ha, hb, Option.getD_some, Option.getD_some] at hab
      subst hab
      exact key_unique hl (mem_of_lookup ha) (mem_of_lookup hb)

end Pairs

/-! ## Entities with their copies -/

variable {kind : EntityKind}

/-- The originals are different entities below a bound, and the copies are the entities from one size up to another. -/
structure Tabulates (lo hi bound : Nat) (entries : List (Ref kind × Ref kind)) : Prop where
  le : lo ≤ hi
  originals : (entries.map (·.1)).Nodup
  copies : (entries.map (·.2)).Nodup
  mem_copies : ∀ r, r ∈ entries.map (·.2) ↔ lo ≤ r.index ∧ r.index < hi
  lt_bound : ∀ r ∈ entries.map (·.1), r.index < bound

/-- References that follow each other are different. -/
theorem nodup_map_add (start n : Nat) : ((List.range n).map fun i => (⟨start + i⟩ : Ref kind)).Nodup := by
  refine List.Nodup.map ?_ List.nodup_range
  intro i j hij
  simpa using hij

/-- Some originals get the next entities as their copies. -/
theorem Tabulates.append {lo hi bound : Nat} {entries : List (Ref kind × Ref kind)} (h : Tabulates lo hi bound entries)
    {olds : List (Ref kind)} (hnew : ∀ r ∈ olds, r ∉ entries.map (·.1)) (hnodup : olds.Nodup)
    (hbound : ∀ r ∈ olds, r.index < bound) :
    Tabulates lo (hi + olds.length) bound
      (olds.zip ((List.range olds.length).map fun i => (⟨hi + i⟩ : Ref kind)) ++ entries) := by
  have hlen : olds.length = ((List.range olds.length).map fun i => (⟨hi + i⟩ : Ref kind)).length := by simp
  have hfst := List.map_fst_zip (Nat.le_of_eq hlen)
  have hsnd := List.map_snd_zip (Nat.le_of_eq hlen.symm)
  refine
    { le := Nat.le_trans h.le (Nat.le_add_right hi _)
      originals := ?originals, copies := ?copies, mem_copies := ?mem_copies, lt_bound := ?lt_bound }
  case originals =>
    rw [List.map_append, hfst]
    refine List.nodup_append.2 ⟨hnodup, h.originals, ?_⟩
    rintro r hr _ hr' rfl
    exact hnew r hr hr'
  -- The earlier copies stand in front of the next index.
  case copies =>
    rw [List.map_append, hsnd]
    refine List.nodup_append.2 ⟨nodup_map_add hi olds.length, h.copies, ?_⟩
    rintro r hr _ hr' rfl
    have hlt := ((h.mem_copies r).1 hr').2
    obtain ⟨i, -, rfl⟩ := List.mem_map.1 hr
    exact Nat.not_lt.2 (Nat.le_add_right hi i) hlt
  case mem_copies =>
    intro r
    rw [List.map_append, hsnd, List.mem_append, h.mem_copies, List.mem_map]
    have hle := h.le
    constructor
    · rintro (⟨i, hi', rfl⟩ | hr)
      · have := List.mem_range.1 hi'
        constructor <;> dsimp only <;> omega
      · omega
    · intro hr
      by_cases hlt : r.index < hi
      · exact Or.inr ⟨hr.1, hlt⟩
      · refine Or.inl ⟨r.index - hi, List.mem_range.2 (by omega), ?_⟩
        have hi' : hi + (r.index - hi) = r.index := by omega
        rw [hi']
  case lt_bound =>
    intro r hr
    rw [List.map_append, hfst] at hr
    rcases List.mem_append.1 hr with hr | hr
    · exact hbound r hr
    · exact h.lt_bound r hr

/-- One original gets the next entity as its copy. -/
theorem Tabulates.cons {lo hi bound : Nat} {entries : List (Ref kind × Ref kind)} (h : Tabulates lo hi bound entries)
    {old : Ref kind} (hnew : old ∉ entries.map (·.1)) (hbound : old.index < bound) :
    Tabulates lo (hi + 1) bound ((old, ⟨hi⟩) :: entries) :=
  Tabulates.append h (by simpa using hnew) (List.nodup_singleton old) (by simpa using hbound)

/-- There are no more copies than entities that could have one. -/
theorem Tabulates.length_le {lo hi bound : Nat} {entries : List (Ref kind × Ref kind)} (h : Tabulates lo hi bound entries) :
    entries.length ≤ bound := by
  have hnodup : (entries.map fun e => e.1.index).Nodup := by
    have := h.originals.map (f := Ref.index) fun _ _ heq => Ref.eq_of_index heq
    rwa [List.map_map] at this
  have hsub : (entries.map fun e => e.1.index) ⊆ List.range bound := by
    intro i hi
    obtain ⟨e, he, rfl⟩ := List.mem_map.1 hi
    exact List.mem_range.2 (h.lt_bound e.1 (List.mem_map_of_mem he))
  have := (List.subperm_of_subset hnodup hsub).length_le
  simpa using this

end ClusterPlan.Duplication
