import ClusterPlan.Format.Serializer
import ClusterPlan.Proofs.Format.Tables

/-!
# Written values are read back

The JSON value of a datum is read as the datum at each proper shape that has it (`Shape.Has.reads`): fields with different names
are told apart by them, an alternative by its name, and what may be missing by null. So every serializer that keeps to the format
reads back what it writes (`Serializer.Documented.readsBack`).
-/

namespace ClusterPlan

variable {order : Datum.EntryOrder}

namespace Shape

/-- Only what is optional is written as null. -/
theorem Has.document_ne_null {s : Shape} {d : Datum} (h : s.Has d) (hs : s.isOptional = false) : d.document order ≠ .null := by
  cases h with
  | absent | present => cases hs
  | _ => rw [Datum.document]; exact nofun

/-- A record is written under the names of its fields. -/
theorem names_fieldDocuments (data : List (String × Datum)) :
    (Datum.fieldDocuments order data).map (·.1) = data.map (·.1) := by
  induction data with
  | nil => rw [Datum.fieldDocuments]; rfl
  | cons field data ih => rw [Datum.fieldDocuments, List.map_cons, List.map_cons, ih]

/-- The data of a record has the declared names, in their order. -/
theorem HasFields.names {shapes : List (String × Shape)} {data : List (String × Datum)} (h : HasFields shapes data) :
    data.map (·.1) = shapes.map (·.1) := by
  cases h with
  | nil => rfl
  | cons _ h => rw [List.map_cons, List.map_cons, h.names]

/-- Each field of a record is written. -/
theorem mem_fieldDocuments {data : List (String × Datum)} {field : String × Datum} (h : field ∈ data) :
    (field.1, field.2.document order) ∈ Datum.fieldDocuments order data := by
  induction data with
  | nil => cases h
  | cons first data ih =>
    rw [Datum.fieldDocuments, List.mem_cons]
    obtain rfl | h := List.mem_cons.1 h
    · exact Or.inl rfl
    · exact Or.inr (ih h)

/-- Among fields with different names, one is found by its name. -/
theorem filter_eq_singleton {α : Type} {fields : List (String × α)} (h : (fields.map (·.1)).Nodup) {field : String × α}
    (hfield : field ∈ fields) : (fields.filter fun other => other.1 == field.1) = [field] := by
  induction fields with
  | nil => cases hfield
  | cons first fields ih =>
    rw [List.map_cons, List.nodup_cons] at h
    rw [List.filter_cons]
    obtain rfl | hmem := List.mem_cons.1 hfield
    · have hnone : ∀ other ∈ fields, ¬(other.1 == field.1) = true := fun other hother heq =>
        h.1 (List.mem_map.2 ⟨other, hother, eq_of_beq heq⟩)
      rw [if_pos (beq_self_eq_true _), List.filter_eq_nil_iff.2 hnone]
    · have hne : ¬(first.1 == field.1) = true := fun heq => h.1 (List.mem_map.2 ⟨field, hmem, (eq_of_beq heq).symm⟩)
      rw [if_neg hne, ih h.2 hmem]

/-- The alternatives of a proper shape are proper. -/
theorem isProper_of_mem {filled : List (String × Shape)} (h : areProper filled) {name : String} {s : Shape}
    (hmem : (name, s) ∈ filled) : s.isProper := by
  induction filled with
  | nil => cases hmem
  | cons first filled ih =>
    rw [areProper, Bool.and_eq_true] at h
    obtain rfl | hmem := List.mem_cons.1 hmem
    · exact h.1
    · exact ih h.2 hmem

/-- Items that are read back one by one are read back as a list. -/
theorem reads_documents {s : Shape} {ds : List Datum} (h : ∀ d ∈ ds, s.Reads (d.document order) d) :
    ReadsItems s (Datum.documents order ds) ds := by
  induction ds with
  | nil => exact .nil s
  | cons d ds ih =>
    obtain ⟨hd, hds⟩ := List.forall_mem_cons.1 h
    rw [Datum.documents]
    exact .cons hd (ih hds)

mutual

/-- What is written for a datum is read as the datum. -/
theorem Has.reads (horder : ∀ entries, (order entries).Perm entries) {s : Shape} {d : Datum} (h : s.Has d) (hs : s.isProper) :
    s.Reads (d.document order) d := by
  cases h with
  | bool b => rw [Datum.document]; exact .bool b
  | int hi => rw [Datum.document]; exact .int hi
  | text t => rw [Datum.document]; exact .text t
  | absent s => rw [Datum.document]; exact .absent s
  | present h =>
    rw [isProper, Bool.and_eq_true, Bool.not_eq_true'] at hs
    rw [Datum.document]
    exact .present (h.document_ne_null hs.1) (h.reads horder hs.2)
  | list h =>
    rw [isProper] at hs
    rw [Datum.document]
    exact .list (reads_documents fun d hd => (h d hd).reads horder hs)
  | table hascending hholds =>
    rw [Datum.document]
    exact .table hascending (horder _) fun entry hentry => hholds entry ((horder _).subset hentry)
  | record h =>
    rw [isProper, Bool.and_eq_true, decide_eq_true_eq] at hs
    rw [Datum.document]
    -- The names of the fields differ, so that each of them is found once.
    refine .record (h.reads horder hs.2 fun field hfield => ?_)
    refine filter_eq_singleton ?_ (mem_fieldDocuments hfield)
    rw [names_fieldDocuments, h.names]
    exact hs.1
  | plain hname => rw [Datum.document]; exact .plain hname
  | filled hmem h =>
    rw [isProper, Bool.and_eq_true] at hs
    rw [Datum.document]
    exact .filled hmem (h.reads horder (isProper_of_mem hs.2 hmem))

/-- The data of a record are read from an object that has each of them once. -/
theorem HasFields.reads (horder : ∀ entries, (order entries).Perm entries) {shapes : List (String × Shape)}
    {data : List (String × Datum)} (h : HasFields shapes data) (hshapes : areProper shapes) {fields : List (String × Document)}
    (hfields : ∀ field ∈ data, (fields.filter fun other => other.1 == field.1) = [(field.1, field.2.document order)]) :
    ReadsFields shapes fields data := by
  cases h with
  | nil => exact .nil fields
  | cons hd h =>
    rw [areProper, Bool.and_eq_true] at hshapes
    obtain ⟨hfield, hfields⟩ := List.forall_mem_cons.1 hfields
    exact .found hfield (hd.reads horder hshapes.1) (h.reads horder hshapes.2 hfields)

end

/-! ## Levels -/

/-- Items are as deep as the deepest of them. -/
theorem depthOfItems_le {docs : List Document} {n : Nat} (h : ∀ doc ∈ docs, doc.depth ≤ n) : Document.depthOfItems docs ≤ n := by
  induction docs with
  | nil => rw [Document.depthOfItems]; exact Nat.zero_le n
  | cons doc docs ih =>
    obtain ⟨hdoc, hdocs⟩ := List.forall_mem_cons.1 h
    rw [Document.depthOfItems]
    exact Nat.max_le.2 ⟨hdoc, ih hdocs⟩

/-- Fields are as deep as the deepest of them. -/
theorem depthOfFields_le {fields : List (String × Document)} {n : Nat} (h : ∀ field ∈ fields, field.2.depth ≤ n) :
    Document.depthOfFields fields ≤ n := by
  induction fields with
  | nil => rw [Document.depthOfFields]; exact Nat.zero_le n
  | cons field fields ih =>
    obtain ⟨hfield, hfields⟩ := List.forall_mem_cons.1 h
    rw [Document.depthOfFields]
    exact Nat.max_le.2 ⟨hfield, ih hfields⟩

/-- The items of a list are written one by one. -/
theorem documents_eq (ds : List Datum) : Datum.documents order ds = ds.map (Datum.document order) := by
  induction ds with
  | nil => rw [Datum.documents]; rfl
  | cons d ds ih => rw [Datum.documents, List.map_cons, ih]

/-- An alternative is no deeper than the shape that it belongs to. -/
theorem depth_le_of_mem {filled : List (String × Shape)} {name : String} {s : Shape} (h : (name, s) ∈ filled) :
    s.depth ≤ depthOf filled := by
  induction filled with
  | nil => cases h
  | cons first filled ih =>
    rw [depthOf]
    obtain rfl | h := List.mem_cons.1 h
    · exact Nat.le_max_left _ _
    · exact Nat.le_trans (ih h) (Nat.le_max_right _ _)

mutual

/-- A JSON value has no more levels than the shape of what is written. -/
theorem Has.depth_le {s : Shape} {d : Datum} (h : s.Has d) : (d.document order).depth ≤ s.depth := by
  cases h with
  | bool | int | text | absent => rw [Datum.document, Document.depth]; exact Nat.zero_le _
  | plain => rw [Datum.document, Document.depth]; exact Nat.zero_le _
  | present h => rw [Datum.document, depth]; exact h.depth_le
  | @list s ds h =>
    rw [Datum.document, Document.depth, depth, documents_eq]
    refine Nat.succ_le_succ (depthOfItems_le fun doc hdoc => ?_)
    obtain ⟨d, hd, rfl⟩ := List.mem_map.1 hdoc
    exact (h d hd).depth_le
  | table =>
    rw [Datum.document, Document.depth, depth]
    refine Nat.succ_le_succ (depthOfFields_le fun field hfield => ?_)
    obtain ⟨entry, -, rfl⟩ := List.mem_map.1 hfield
    exact Nat.le_of_eq (by rw [Document.depth])
  | record h => rw [Datum.document, Document.depth, depth]; exact Nat.succ_le_succ h.depth_le
  | filled hmem h =>
    rw [Datum.document, Document.depth, depth]
    refine Nat.succ_le_succ (depthOfFields_le (List.forall_mem_singleton.2 ?_))
    exact Nat.le_trans h.depth_le (depth_le_of_mem hmem)

/-- What is written for a record is no deeper than its shape. -/
theorem HasFields.depth_le {shapes : List (String × Shape)} {data : List (String × Datum)} (h : HasFields shapes data) :
    Document.depthOfFields (Datum.fieldDocuments order data) ≤ depthOf shapes := by
  cases h with
  | nil => rw [Datum.fieldDocuments, Document.depthOfFields]; exact Nat.zero_le _
  | cons hd h =>
    rw [Datum.fieldDocuments, Document.depthOfFields, depthOf]
    exact Nat.max_le.2 ⟨Nat.le_trans hd.depth_le (Nat.le_max_left _ _), Nat.le_trans h.depth_le (Nat.le_max_right _ _)⟩

end

end Shape

/-! ## Serializers -/

namespace Serializer

variable {s : Serializer}

/-- A serializer that keeps to the format reads back the data that it writes. -/
theorem Documented.read_write (hs : s.Documented) {shape : Shape} (hproper : shape.isProper) (hdepth : shape.depth < depthLimit)
    {d : Datum} (h : shape.Has d) : ∃ text, s.write d = .ok text ∧ s.read shape text = some d := by
  obtain ⟨order, text, horder, hwrite, hspells⟩ := hs.writes shape d hproper h
  exact ⟨text, hwrite, hs.reads shape _ d text hproper (h.reads horder hproper) (Nat.lt_of_le_of_lt h.depth_le hdepth) hspells⟩

end Serializer

/-- A value consists of data as its type is declared, and is put together from them again. -/
structure Declared.Faithful {α : Type} [Declared α] (a : α) : Prop where
  has : (Declared.shape α).Has (Declared.datum a)
  ofDatum? : Declared.ofDatum? (Declared.datum a) = some a

/-- What is stored faithfully is read back, in every proper shape that is not too deep. -/
theorem Serializer.Documented.readsBack {s : Serializer} (hs : s.Documented) {α : Type} [Declared α]
    (hproper : (Declared.shape α).isProper) (hdepth : (Declared.shape α).depth < depthLimit) {a : α} (h : Declared.Faithful a) :
    s.ReadsBack a := by
  obtain ⟨text, hwrite, hread⟩ := hs.read_write hproper hdepth h.has
  exact ⟨text, hwrite, by rw [value?, hread, Option.bind_some, h.ofDatum?]⟩

end ClusterPlan
