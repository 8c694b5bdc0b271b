import ClusterPlan.Format.Declarations
import ClusterPlan.Proofs.Format.RoundTrip

/-!
# Types and errors are declared faithfully

Every data type, type instance, error code and error shown to a client consists of data as its type is declared, and is put
together from them again.
-/

namespace ClusterPlan.Declared

theorem faithful_bool (b : Bool) : Faithful b := ⟨.bool b, rfl⟩

theorem faithful_text (s : String) : Faithful s := ⟨.text s, rfl⟩

/-- An id is kept in a signed word. -/
theorem faithful_int {i : Int} (h : Word.int64.Holds i) : Faithful i := ⟨.int h, rfl⟩

theorem faithful_uint8 (n : UInt8) : Faithful n where
  has := .int ⟨Int.natCast_nonneg _, Int.lt_add_one_iff.1 (Int.ofNat_lt.2 n.toNat_lt_size)⟩
  ofDatum? := congrArg some UInt8.ofNat_toNat

theorem faithful_uint32 (n : UInt32) : Faithful n where
  has := .int ⟨Int.natCast_nonneg _, Int.lt_add_one_iff.1 (Int.ofNat_lt.2 n.toNat_lt_size)⟩
  ofDatum? := congrArg some UInt32.ofNat_toNat

section Containers

variable {α : Type} [Declared α]

/-- A value that may be missing, if what is there is declared faithfully. -/
theorem faithful_option {o : Option α} (h : ∀ a ∈ o, Faithful a) : Faithful o := by
  cases o with
  | none => exact ⟨.absent _, rfl⟩
  | some a =>
    obtain ⟨hhas, hvalue⟩ := h a rfl
    exact ⟨.present hhas, congrArg (Option.map some) hvalue⟩

/-- Data of a list is taken back element by element. -/
theorem mapM_ofDatum? {as : List α} (h : ∀ a ∈ as, Faithful a) : (as.map datum).mapM ofDatum? = some as := by
  induction as with
  | nil => rfl
  | cons a as ih =>
    obtain ⟨ha, has⟩ := List.forall_mem_cons.1 h
    rw [List.map_cons, List.mapM_cons, ha.ofDatum?, ih has]
    rfl

/-- A list of values that are declared faithfully. -/
theorem faithful_list {as : List α} (h : ∀ a ∈ as, Faithful a) : Faithful as where
  has := by
    refine .list fun d hd => ?_
    obtain ⟨a, ha, rfl⟩ := List.mem_map.1 hd
    exact (h a ha).has
  ofDatum? := mapM_ofDatum? h

end Containers

/-- A data type is known by its name and what it comes with. -/
theorem faithful_dataType (t : DataType) : Faithful t := by
  cases t with
  | decimal precision scale =>
    have hprecision := faithful_uint8 precision
    have hscale := faithful_uint8 scale
    refine ⟨.filled List.mem_cons_self (.record (.cons hprecision.has (.cons hscale.has .nil))), ?_⟩
    exact congrArg₂ (fun p s => do return DataType.decimal (← p) (← s)) hprecision.ofDatum? hscale.ofDatum?
  | varchar length =>
    have hlength := faithful_uint32 length
    exact ⟨.filled (List.mem_cons_of_mem _ List.mem_cons_self) hlength.has, congrArg (Option.map DataType.varchar) hlength.ofDatum?⟩
  | _ => exact ⟨.plain (by decide), by decide⟩

/-- A type is stored with its data type and with whether it admits nulls. -/
theorem faithful_typeInstance (t : TypeInstance) : Faithful t where
  has := .record (.cons (faithful_dataType t.dataType).has (.cons (faithful_bool t.nullable).has .nil))
  ofDatum? := congrArg (fun read => do return TypeInstance.mk (← read) t.nullable) (faithful_dataType t.dataType).ofDatum?

/-- An error code is stored under its name. -/
theorem faithful_errorCode (c : ErrorCode) : Faithful c := by
  cases c with
  | _ => exact ⟨.plain (by decide), by decide⟩

/-- An error is stored with its code and its message. -/
theorem faithful_publicError (e : PublicError) : Faithful e where
  has := .record (.cons (faithful_errorCode e.code).has (.cons (faithful_text e.message).has .nil))
  ofDatum? := congrArg (fun read => do return PublicError.mk (← read) e.message) (faithful_errorCode e.code).ofDatum?

end ClusterPlan.Declared
