import ClusterPlan.Proofs.Expr.Constants
import Mathlib.Logic.Function.Iterate

/-!
# Casting to the same type again

A cast gives a value of its target (`Value.conforms_of_cast`), and a value of the target stays as it is when it is cast to it
once more, with one exception. The text of a string has quotes around it, and a cast to a varying string makes a string of the
text, so that each further cast adds quotes (`Value.castAll_string`). Casting is idempotent exactly for nulls and where the target
is no varying string, and a chain of casts to one type has the value of the single cast under the same condition
(`cast_idempotent_iff`).
-/

namespace ClusterPlan

namespace Value

/-- The values of a data type. A null is a value of each of them. -/
def Conforms : Value → DataType → Prop
  | null, _ => True
  | bool _, .boolean => True
  | int _, .int | int _, .bigInt => True
  | double _, .double | double _, .decimal _ _ => True
  | string _, .varchar _ | string _, .date | string _, .timestamp => True
  | _, _ => False

/-- A literal that is accepted was read. -/
theorem exists_of_ofLiteral {α : Type} {t : DataType} {literal : String} {read? : Option α} {f : α → Value} {w : Value}
    (h : ofLiteral t literal (read?.map f) = .ok w) : ∃ a, w = f a := by
  cases read? with
  | none => cases h
  | some a => exact ⟨a, (Except.ok.inj h).symm⟩

/-- A cast gives a value of its target. -/
theorem conforms_of_cast {v w : Value} {t : DataType} (h : v.cast t = .ok w) : w.Conforms t := by
  cases v with
  | string s =>
    cases t with
    | boolean | int | bigInt | double | decimal =>
      obtain ⟨a, rfl⟩ := exists_of_ofLiteral h
      trivial
    | _ => cases h; trivial
  | _ => cases t <;> cases h <;> trivial

/-- A value of a type other than a varying string stays as it is. -/
theorem cast_of_conforms {w : Value} {t : DataType} (h : w.Conforms t) (ht : ∀ length, t ≠ .varchar length) :
    w.cast t = .ok w := by
  cases t with
  | varchar length => exact absurd rfl (ht length)
  | _ => cases w <;> first | rfl | exact absurd h id

/-- A text with quotes around it. -/
def quoted (s : String) : String := (string s).toText

/-- Quoting again and again adds two characters each time. -/
theorem length_iterate_quoted (n : Nat) (s : String) : (quoted^[n] s).length = s.length + 2 * n := by
  induction n with
  | zero => rfl
  | succ n ih =>
    have hquotes : "'".length = 1 := rfl
    rw [Function.iterate_succ_apply', quoted, toText, String.length_append, String.length_append, ih, hquotes]
    omega

/-- Each cast of a string to a varying string adds quotes. -/
theorem castAll_string (s : String) {types : List TypeInstance}
    (htypes : ∀ type ∈ types, ∃ length, type.dataType = .varchar length) :
    (string s).castAll types = .ok (string (quoted^[types.length] s)) := by
  induction types generalizing s with
  | nil => rfl
  | cons type types ih =>
    obtain ⟨⟨length, hlength⟩, htypes⟩ := List.forall_mem_cons.1 htypes
    rw [castAll, List.foldlM_cons, hlength]
    exact ih (quoted s) htypes

/-- A value that a cast leaves alone is left alone by further casts to the same type. -/
theorem castAll_of_cast_eq_self {w : Value} {t : DataType} (h : w.cast t = .ok w) {types : List TypeInstance}
    (htypes : ∀ type ∈ types, type.dataType = t) : w.castAll types = .ok w := by
  induction types with
  | nil => rfl
  | cons type types ih =>
    obtain ⟨htype, htypes⟩ := List.forall_mem_cons.1 htypes
    rw [castAll, List.foldlM_cons, htype, h]
    exact ih htypes

/-- A value of a type is not changed by casts to it exactly if there is no cast, or it is null or the type is no varying string. -/
theorem castAll_eq_self_iff {w : Value} {t : DataType} (h : w.Conforms t) {types : List TypeInstance}
    (htypes : ∀ type ∈ types, type.dataType = t) :
    w.castAll types = .ok w ↔ types = [] ∨ w = null ∨ ∀ length, t ≠ .varchar length := by
  constructor
  · intro hcasts
    by_contra! hnot
    obtain ⟨hne, hnull, length, rfl⟩ := hnot
    cases w with
    | null => exact hnull rfl
    | string s =>
      rw [castAll_string s fun type htype => ⟨length, htypes type htype⟩] at hcasts
      have hlength := congrArg String.length (string.inj (Except.ok.inj hcasts))
      rw [length_iterate_quoted] at hlength
      have hpos := List.length_pos_iff.2 hne
      omega
    | _ => exact h
  · rintro (rfl | rfl | ht)
    · rfl
    · exact castAll_of_cast_eq_self rfl htypes
    · exact castAll_of_cast_eq_self (cast_of_conforms h ht) htypes

/-- Where the target is a varying string every cast succeeds, and only a null becomes null. -/
theorem cast_varchar (v : Value) (length : UInt32) : ∃ w, v.cast (.varchar length) = .ok w ∧ (w = null ↔ v = null) := by
  cases v with
  | null => exact ⟨null, rfl, Iff.rfl⟩
  | _ => exact ⟨_, rfl, by simp⟩

/-- Casts to the same type leave a cast value alone, unless it is a text that gets further quotes. -/
theorem cast_eq_self_iff {v w : Value} {t : DataType} (h : v.cast t = .ok w) {types : List TypeInstance}
    (htypes : ∀ type ∈ types, type.dataType = t) :
    w.castAll types = .ok w ↔ types = [] ∨ v = null ∨ ∀ length, t ≠ .varchar length := by
  rw [castAll_eq_self_iff (conforms_of_cast h) htypes]
  by_cases ht : ∀ length, t ≠ .varchar length
  · exact iff_of_true (Or.inr (Or.inr ht)) (Or.inr (Or.inr ht))
  · obtain ⟨length, rfl⟩ := not_forall_not.1 ht
    obtain ⟨w', hcast, hnull⟩ := cast_varchar v length
    obtain rfl : w = w' := Except.ok.inj (h.symm.trans hcast)
    rw [hnull]

end Value

/-- The same holds of casts in expressions, where the outcome may also be an error. -/
theorem Expr.evaluateConstant_castAll_iff (e : Expr) (type : TypeInstance) {types : List TypeInstance}
    (htypes : ∀ s ∈ types, s.dataType = type.dataType) :
    ((cast e type).castAll types).evaluateConstant = (cast e type).evaluateConstant ↔
      types = [] ∨ (∀ v, e.evaluateConstant = .ok (some v) → v = .null) ∨ ∀ length, type.dataType ≠ .varchar length := by
  rw [evaluateConstant_castAll, evaluateConstant]
  rcases e.evaluateConstant with err | _ | v
  · simp
  · simp
  · cases hcast : v.cast type.dataType with
    | error err =>
      have ht : ∀ length, type.dataType ≠ .varchar length := by
        intro length heq
        obtain ⟨w, hok, -⟩ := v.cast_varchar length
        rw [heq, hok] at hcast
        cases hcast
      simp [hcast, ht]
    | ok w =>
      have hreport : report (w.castAll types) = .ok (some w) ↔ w.castAll types = .ok w := by
        cases w.castAll types <;> simp [report]
      simp only [hcast, hreport, Value.cast_eq_self_iff hcast htypes, Except.ok.injEq, Option.some.injEq, forall_eq']

/-- A second cast to a type changes nothing exactly if the value that was cast first is null or the type is no varying string. A
chain of casts to one data type evaluates like the single cast exactly if it is a single cast, or what is cast has no value but
null, or the type is no varying string. -/
theorem cast_idempotent_iff (t : DataType) :
    (∀ v w : Value, v.cast t = .ok w → (w.cast t = .ok w ↔ v = .null ∨ ∀ length, t ≠ .varchar length)) ∧
      ∀ (e : Expr) (type : TypeInstance) (types : List TypeInstance), type.dataType = t → (∀ s ∈ types, s.dataType = t) →
        (((Expr.cast e type).castAll types).evaluateConstant = (Expr.cast e type).evaluateConstant ↔
          types = [] ∨ (∀ v, e.evaluateConstant = .ok (some v) → v = .null) ∨ ∀ length, t ≠ .varchar length) := by
  constructor
  · intro v w h
    have hone : ∀ type ∈ [TypeInstance.notNull t], type.dataType = t := List.forall_mem_singleton.2 rfl
    have honce := Value.cast_eq_self_iff h hone
    have hcast : w.castAll [.notNull t] = w.cast t := bind_pure _
    rw [hcast] at honce
    simpa using honce
  · rintro e type types rfl htypes
    exact e.evaluateConstant_castAll_iff type htypes

/-- A numeral with blanks around it is an integer after one cast and after three. -/
theorem cast_idempotent_of_numeral :
    (Value.string " 17 ").cast .int = .ok (.int 17) ∧ (Value.int 17).cast .int = .ok (.int 17) ∧
      ((Expr.cast (.text " 17 ") (.notNull .int)).castAll [.withNull .int, .notNull .int]).evaluateConstant =
        .ok (some (.int 17)) := by
  have hcast : (Value.string " 17 ").cast .int = .ok (.int 17) := by decide +kernel
  have hcasted : (Expr.cast (.text " 17 ") (.notNull .int)).casted? = some (.ok (.int 17)) := congrArg some hcast
  have honce : (Expr.cast (.text " 17 ") (.notNull .int)).evaluateConstant = .ok (some (.int 17)) :=
    Expr.evaluateConstant_of_casted? hcasted
  obtain ⟨hvalues, hchains⟩ := cast_idempotent_iff .int
  have hchain := hchains (.text " 17 ") (.notNull .int) [.withNull .int, .notNull .int] rfl (by decide)
  exact ⟨hcast, (hvalues _ _ hcast).2 (Or.inr nofun), (hchain.2 (Or.inr (Or.inr nofun))).trans honce⟩

/-- Casts need not be idempotent: the text of an integer gets quotes when it is cast to a varying string once more. -/
theorem not_idempotent_of_integer_text :
    ¬((∀ (v w : Value) (t : DataType), v.cast t = .ok w → w.cast t = .ok w) ∧
      ∀ (e : Expr) (type : TypeInstance) (types : List TypeInstance), (∀ s ∈ types, s.dataType = type.dataType) →
        ((Expr.cast e type).castAll types).evaluateConstant = (Expr.cast e type).evaluateConstant) := by
  rintro ⟨hidempotent, -⟩
  have htwice := hidempotent (.int 3) (.string "3") (.varchar 5) rfl
  exact absurd htwice (by decide)

end ClusterPlan
