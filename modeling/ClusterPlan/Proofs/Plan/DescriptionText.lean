import ClusterPlan.Proofs.Format.Declarations
import ClusterPlan.Proofs.Json.Serializing
import ClusterPlan.Proofs.Plan.Describing

/-!
# Descriptions read back

A description that is built by adding nodes has one place for each id, and its places are positions of nodes (`Proper`). So it
is declared faithfully up to the order of its places, and a serializer that keeps to the format reads it back with all its nodes
and places (`reads_back_serialised`).
-/

namespace ClusterPlan

open Declared

/-! ## Nodes -/

/-- A property is stored with its name and its value. -/
theorem faithful_pair (p : Pair) : Faithful p where
  has := .record (.cons (faithful_text p.key).has (.cons (faithful_text p.value).has .nil))
  ofDatum? := rfl

namespace NodeDescription

/-- The ids of a node are kept in signed words. -/
structure InRange (n : NodeDescription) : Prop where
  id : Word.int64.Holds n.id
  output : ∀ i ∈ n.output, Word.int64.Holds i
  dependencies : ∀ is ∈ n.dependencies, ∀ i ∈ is, Word.int64.Holds i

/-- The description of a node whose numbers are in range is stored faithfully. -/
theorem InRange.faithful {n : NodeDescription} (h : n.InRange) : Faithful n := by
  have hname := faithful_text n.name
  have hid := faithful_int h.id
  have houtput : Faithful n.output := faithful_option fun i hi => faithful_int (h.output i hi)
  have hdescription : Faithful n.description := faithful_option fun pairs _ => faithful_list fun p _ => faithful_pair p
  have hdependencies : Faithful n.dependencies :=
    faithful_option fun is his => faithful_list fun i hi => faithful_int (h.dependencies is his i hi)
  refine ⟨.record (.cons hname.has (.cons hid.has (.cons houtput.has (.cons hdescription.has
    (.cons hdependencies.has .nil))))), ?_⟩
  have hparts : ofDatum? (datum n) = do
      return NodeDescription.mk (← ofDatum? (datum n.name)) (← ofDatum? (datum n.id)) (← ofDatum? (datum n.output))
        (← ofDatum? (datum n.description)) (← ofDatum? (datum n.dependencies)) := rfl
  rw [hparts, hname.ofDatum?, hid.ofDatum?, houtput.ofDatum?, hdescription.ofDatum?, hdependencies.ofDatum?]
  rfl

end NodeDescription

/-! ## Places -/

namespace PlanDescription

/-- A place goes under its id or is one that was there. -/
theorem mem_insertPlace {id : Int} {place : Nat} {places : List (Int × Nat)} {entry : Int × Nat}
    (h : entry ∈ insertPlace id place places) : entry = (id, place) ∨ entry ∈ places := by
  induction places with
  | nil => exact Or.inl (List.mem_singleton.1 h)
  | cons first places ih =>
    rw [insertPlace] at h
    split at h
    · exact (List.mem_cons.1 h).imp_right (List.mem_cons_of_mem _)
    · obtain rfl | h := List.mem_cons.1 h
      · exact Or.inr List.mem_cons_self
      · exact (ih h).imp_right (List.mem_cons_of_mem _)

/-- An id keeps one place. -/
theorem nodup_insertPlace {id : Int} {places : List (Int × Nat)} (h : (places.map (·.1)).Nodup) (place : Nat) :
    ((insertPlace id place places).map (·.1)).Nodup := by
  induction places with
  | nil => exact List.nodup_cons.2 ⟨nofun, List.nodup_nil⟩
  | cons first places ih =>
    rw [insertPlace]
    split
    · next heq =>
      rw [List.map_cons, heq] at h
      exact h
    · next hne =>
      rw [List.map_cons, List.nodup_cons] at h ⊢
      refine ⟨fun hmem => ?_, ih h.2⟩
      obtain ⟨entry, hentry, hkey⟩ := List.mem_map.1 hmem
      obtain rfl | hentry := mem_insertPlace hentry
      · exact hne hkey.symm
      · exact h.1 (List.mem_map.2 ⟨entry, hentry, hkey⟩)

/-! ## Descriptions -/

/-- The ids are words, each has one place, and the places are positions of nodes. -/
structure Proper (d : PlanDescription) : Prop where
  nodes : ∀ n ∈ d.nodes, n.InRange
  ids : ∀ entry ∈ d.places, Word.int64.Holds entry.1
  positions : ∀ entry ∈ d.places, entry.2 < d.nodes.length
  distinct : (d.places.map (·.1)).Nodup

/-- Adding a node keeps a description proper. -/
theorem Proper.add {d : PlanDescription} (h : d.Proper) {n : NodeDescription} (hn : n.InRange) : (d.add n).Proper where
  nodes := by
    intro m hm
    obtain hm | hm := List.mem_append.1 hm
    · exact h.nodes m hm
    · rwa [List.mem_singleton.1 hm]
  ids := by
    intro entry hentry
    obtain rfl | hentry := mem_insertPlace hentry
    · exact hn.id
    · exact h.ids entry hentry
  positions := by
    intro entry hentry
    rw [nodes_add, List.length_append, List.length_singleton]
    obtain rfl | hentry := mem_insertPlace hentry
    · exact Nat.lt_succ_self _
    · exact Nat.lt_succ_of_lt (h.positions entry hentry)
  distinct := nodup_insertPlace h.distinct d.nodes.length

/-- Every description that is built by adding nodes is proper. -/
theorem proper_of_adding {nodes : List NodeDescription} (hnodes : ∀ n ∈ nodes, n.InRange) :
    (nodes.foldl PlanDescription.add {}).Proper := by
  have hfold : ∀ d : PlanDescription, d.Proper → (nodes.foldl PlanDescription.add d).Proper := by
    induction nodes with
    | nil => exact fun _ h => h
    | cons n nodes ih =>
      obtain ⟨hn, hnodes⟩ := List.forall_mem_cons.1 hnodes
      exact fun d h => ih hnodes _ (h.add hn)
  exact hfold {} ⟨nofun, nofun, nofun, List.nodup_nil⟩

/-- The same nodes and the same places, which are kept in no particular order. -/
structure Same (d d' : PlanDescription) : Prop where
  nodes : d.nodes = d'.nodes
  places : d.places.Perm d'.places

/-- A proper description consists of data as descriptions are declared. -/
theorem Proper.has {d : PlanDescription} (h : d.Proper) (hlength : d.nodes.length ≤ UInt64.size) :
    (shape PlanDescription).Has (datum d) := by
  refine .record (.cons (faithful_list fun n hn => (h.nodes n hn).faithful).has
    (.cons (.table (Datum.ascending_ascending d.places) fun entry hentry => ?_) .nil))
  have hmem := (Datum.perm_ascending h.distinct).subset hentry
  have hposition := h.positions entry hmem
  have hsize : UInt64.size = 0x10000000000000000 := rfl
  exact ⟨h.ids entry hmem, Int.natCast_nonneg _, by rw [Word.greatest]; omega⟩

/-- The description that is put together from these data has the same nodes and places. -/
theorem Proper.exists_ofDatum? {d : PlanDescription} (h : d.Proper) :
    ∃ d' : PlanDescription, ofDatum? (datum d) = some d' ∧ d'.Same d := by
  have hnodes : Faithful d.nodes := faithful_list fun n hn => (h.nodes n hn).faithful
  refine ⟨⟨d.nodes, Datum.ascending d.places⟩, ?_, rfl, Datum.perm_ascending h.distinct⟩
  exact congrArg (fun read => do return PlanDescription.mk (← read) (Datum.ascending d.places)) hnodes.ofDatum?

/-- A proper description has a text, and it is read back from it with its nodes and places. -/
theorem Proper.readsBack {d : PlanDescription} (h : d.Proper) (hlength : d.nodes.length ≤ UInt64.size) {s : Serializer}
    (hs : s.Documented) : ∃ text, d.serialised s = .ok text ∧ ∃ d', s.value? PlanDescription text = some d' ∧ d'.Same d := by
  obtain ⟨text, hwrite, hread⟩ := hs.read_write (by decide) (by decide) (h.has hlength)
  obtain ⟨d', hvalue, hsame⟩ := h.exists_ofDatum?
  refine ⟨text, ?_, d', ?_, hsame⟩
  · rw [serialised, Serializer.text, hwrite]
    rfl
  · rw [Serializer.value?, hread, Option.bind_some, hvalue]

end PlanDescription

/-- What is written is read back, by every serializer that keeps to the documented format. A description that is built by adding
nodes, with any ids that are words, any texts and any lists that are there or missing, has a text, from which it is read with the
same nodes and the same places; there are at most as many nodes as there are positions. Every data type, type instance, error code
and error shown to a client has a text, from which it is read. -/
theorem reads_back_serialised (s : Serializer) (hs : s.Documented) :
    (∀ nodes : List NodeDescription, (∀ n ∈ nodes, n.InRange) → nodes.length ≤ UInt64.size →
      ∃ text, (nodes.foldl PlanDescription.add {}).serialised s = .ok text ∧
        ∃ d, s.value? PlanDescription text = some d ∧ d.Same (nodes.foldl PlanDescription.add {})) ∧
    (∀ t : DataType, s.ReadsBack t) ∧
    (∀ t : TypeInstance, s.ReadsBack t) ∧
    (∀ c : ErrorCode, s.ReadsBack c) ∧
    ∀ e : PublicError, s.ReadsBack e := by
  refine ⟨fun nodes hnodes hlength => ?_, fun t => ?_, fun t => ?_, fun c => ?_, fun e => ?_⟩
  · have hcount : (nodes.foldl PlanDescription.add {}).nodes.length ≤ UInt64.size := by
      rwa [PlanDescription.nodes_foldl_add, List.nil_append]
    exact (PlanDescription.proper_of_adding hnodes).readsBack hcount hs
  · exact hs.readsBack (by decide) (by decide) (faithful_dataType t)
  · exact hs.readsBack (by decide) (by decide) (faithful_typeInstance t)
  · exact hs.readsBack (by decide) (by decide) (faithful_errorCode c)
  · exact hs.readsBack (by decide) (by decide) (faithful_publicError e)

namespace RepeatedId

/-- The least id comes twice, and the second time without lists. -/
def nodes : List NodeDescription :=
  [{ name := "\"扫描\"\\\x01\n", id := -0x8000000000000000, output := none,
     description := some [⟨"a\tb", ""⟩, ⟨"", "\x7f/"⟩], dependencies := some [0x7FFFFFFFFFFFFFFF, 0] },
   { name := "", id := 0x7FFFFFFFFFFFFFFF, output := some (-0x8000000000000000), description := some [], dependencies := some [] },
   { name := "null", id := -0x8000000000000000 }]

/-- The numbers of the two nodes are in range. -/
theorem inRange_of_mem : ∀ n ∈ nodes, n.InRange := by
  rw [nodes, List.forall_mem_cons, List.forall_mem_cons, List.forall_mem_singleton]
  refine ⟨⟨by decide, nofun, ?_⟩, ⟨by decide, ?_, ?_⟩, ⟨by decide, nofun, nofun⟩⟩ <;> rintro _ ⟨⟩ <;> decide

end RepeatedId

open RepeatedId in
/-- The serializer of the workbench, with quotes, backslashes and control characters, the extreme ids and an id that comes twice. -/
theorem reads_back_repeated_id :
    Json.serializer.Documented ∧ (∀ n ∈ nodes, n.InRange) ∧ nodes.length ≤ UInt64.size ∧
      (nodes.foldl PlanDescription.add {}).places = [(-0x8000000000000000, 2), (0x7FFFFFFFFFFFFFFF, 1)] ∧
      (∃ text, (nodes.foldl PlanDescription.add {}).serialised Json.serializer = .ok text ∧
        ∃ d, Json.serializer.value? PlanDescription text = some d ∧ d.Same (nodes.foldl PlanDescription.add {})) ∧
      Json.serializer.text (DataType.varchar 0xFFFFFFFF) = .ok "\x7b\n  \"Varchar\": 4294967295\n\x7d" ∧
      Json.serializer.ReadsBack (DataType.varchar 0xFFFFFFFF) := by
  obtain ⟨hdescriptions, htypes, -⟩ := reads_back_serialised Json.serializer Json.documented_serializer
  exact ⟨Json.documented_serializer, inRange_of_mem, by decide, by decide, hdescriptions nodes inRange_of_mem (by decide),
    by decide +kernel, htypes _⟩

end ClusterPlan
