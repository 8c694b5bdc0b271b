import ClusterPlan.Plan.Aggregation

/-!
# The life of an aggregation

Until the operands are split off, an aggregation lists its fields in the order of their positions (`Holds`): a call that
succeeds adds one field at the end and answers with its position, so that no position ever changes its field. The split hands
out the operand of each field in that order and leaves what else there was of the aggregates in lists that are in step; from
then on every call fails and changes nothing (`filled_and_handed_over`).
-/

namespace ClusterPlan

/-- What a projection computes for a field: an aggregate without operand has a one of its type, and else of type BIGINT. -/
def AggregateField.operand : AggregateField → Expr
  | groupBy e => e
  | aggregate _ (some operand) => operand
  | aggregate f none =>
    match f.type with
    | some type => .constant (.int 1) type
    | none => .constant (.int 1) ⟨.bigInt, false⟩

/-- The function that is left of an aggregate without its operand. -/
def AggregateHead.remnant (f : AggregateHead) : Option Expr → String
  | some _ => f.function
  | none => if f.function = "COUNT" then "COUNT(*)" else f.function

namespace Aggregation

/-! ## The fields before the split -/

/-- The fields of an aggregation are some grouping expressions and behind them some aggregates. -/
def Holds (a : Aggregation) (groupBy : List Expr) (aggregates : List (AggregateHead × Option Expr)) : Prop :=
  a.phase = .bare groupBy ∧ aggregates = [] ∨
    a.phase = .resolved groupBy (aggregates.map fun x => .aggregate x.1 x.2)

/-- The fields in the order of their positions. -/
def fieldList (groupBy : List Expr) (aggregates : List (AggregateHead × Option Expr)) : List AggregateField :=
  groupBy.map .groupBy ++ aggregates.map fun x => .aggregate x.1 x.2

section Holds

variable {a : Aggregation} {groupBy : List Expr} {aggregates : List (AggregateHead × Option Expr)}

/-- There are as many fields as grouping expressions and aggregates. -/
theorem length_fieldList : (fieldList groupBy aggregates).length = groupBy.length + aggregates.length := by
  simp [fieldList]

/-- A further grouping expression is a further field, as long as there are no aggregates. -/
theorem fieldList_append_groupBy (e : Expr) :
    fieldList (groupBy ++ [e]) [] = fieldList groupBy [] ++ [.groupBy e] := by
  simp [fieldList]

/-- A further aggregate is a further field. -/
theorem fieldList_append_aggregate (x : AggregateHead × Option Expr) :
    fieldList groupBy (aggregates ++ [x]) = fieldList groupBy aggregates ++ [.aggregate x.1 x.2] := by
  simp [fieldList]

/-- A new aggregation holds its grouping expressions. -/
theorem holds_ofGroupBy (id : Int) (groupBy : List Expr) : (ofGroupBy id groupBy).Holds groupBy [] :=
  Or.inl ⟨rfl, rfl⟩

theorem Holds.groupByCount (h : a.Holds groupBy aggregates) : a.phase.groupByCount = groupBy.length := by
  rcases h with ⟨h, -⟩ | h <;> rw [h] <;> rfl

theorem Holds.aggregateCount (h : a.Holds groupBy aggregates) : a.phase.aggregateCount = aggregates.length := by
  rcases h with ⟨h, rfl⟩ | h
  · rw [h]
    rfl
  · rw [h]
    exact List.length_map _

/-- The fields are counted right. -/
theorem Holds.fieldCount (h : a.Holds groupBy aggregates) :
    a.phase.fieldCount = (fieldList groupBy aggregates).length := by
  rw [AggregatePhase.fieldCount, h.groupByCount, h.aggregateCount, length_fieldList]

/-- The field at a position is the one in the list. -/
theorem Holds.field (h : a.Holds groupBy aggregates) {p : Nat} {f : AggregateField}
    (hp : (fieldList groupBy aggregates)[p]? = some f) : a.field p = .ok f := by
  rw [fieldList, List.getElem?_append, List.length_map, List.getElem?_map, List.getElem?_map] at hp
  unfold Aggregation.field
  split at hp
  · rename_i hlt
    rw [List.getElem?_eq_getElem hlt] at hp
    cases hp
    rcases h with ⟨h, -⟩ | h <;> simp only [h, List.getElem?_eq_getElem hlt]
  · rename_i hle
    obtain ⟨x, hx, rfl⟩ := Option.map_eq_some_iff.1 hp
    rcases h with ⟨-, rfl⟩ | h
    · cases hx
    · simp only [h, List.getElem?_eq_none (Nat.not_lt.1 hle), List.getElem?_map, hx, Option.map_some]

/-- A grouping expression comes behind the others, as long as there are no aggregates. -/
theorem Holds.addGroupBy (h : a.Holds groupBy aggregates) (e : Expr) :
    (a.addGroupBy e).1 = .ok (fieldList groupBy aggregates).length ∧ aggregates = [] ∧
        (a.addGroupBy e).2.Holds (groupBy ++ [e]) [] ∨
      ∃ error, a.addGroupBy e = (.error error, a) := by
  rcases h with ⟨h, rfl⟩ | h
  · left
    rw [Aggregation.addGroupBy, h, length_fieldList]
    exact ⟨rfl, rfl, Or.inl ⟨rfl, rfl⟩⟩
  · right
    simp only [Aggregation.addGroupBy, h]
    exact ⟨_, rfl⟩

/-- An aggregate comes behind all fields. -/
theorem Holds.addAggregate (h : a.Holds groupBy aggregates) (f : AggregateHead) (operand : Option Expr) :
    (a.addAggregate f operand).1 = .ok (fieldList groupBy aggregates).length ∧
      (a.addAggregate f operand).2.Holds groupBy (aggregates ++ [(f, operand)]) := by
  rw [length_fieldList]
  rcases h with ⟨h, rfl⟩ | h
  · rw [Aggregation.addAggregate, h]
    exact ⟨rfl, Or.inr rfl⟩
  · rw [Aggregation.addAggregate, h]
    refine ⟨by simp, Or.inr ?_⟩
    rw [List.map_append]
    rfl

end Holds

/-! ## Calls -/

/-- A call that fills or splits an aggregation. -/
inductive Call where
  | addGroupBy (e : Expr)
  | addAggregate (f : AggregateHead) (operand : Option Expr)
  | splitOffProject

/-- The aggregation after a call. -/
def Call.run (a : Aggregation) : Call → Aggregation
  | addGroupBy e => (a.addGroupBy e).2
  | addAggregate f operand => (a.addAggregate f operand).2
  | splitOffProject => a.splitOffProject.2

/-- The position that a call gives to a field, if it succeeds. -/
def Call.given? (a : Aggregation) : Call → Option (Nat × AggregateField)
  | addGroupBy e => (a.addGroupBy e).1.toOption.map fun p => (p, .groupBy e)
  | addAggregate f operand => (a.addAggregate f operand).1.toOption.map fun p => (p, .aggregate f operand)
  | splitOffProject => none

/-- The aggregation after some calls. -/
def run (a : Aggregation) (calls : List Call) : Aggregation := calls.foldl Call.run a

/-- The positions that calls give to fields, in the order of the calls. -/
def given (a : Aggregation) : List Call → List (Nat × AggregateField)
  | [] => []
  | c :: calls => (c.given? a).toList ++ (c.run a).given calls

/-- Fields that have positions from a given one on. -/
def numbered (start : Nat) (fields : List AggregateField) : List (Nat × AggregateField) :=
  (List.range' start fields.length).zip fields

/-- Fields that are added go on with the numbers. -/
theorem numbered_append (start : Nat) (fields added : List AggregateField) :
    numbered start (fields ++ added) = numbered start fields ++ numbered (start + fields.length) added := by
  rw [numbered, numbered, numbered, List.length_append, ← List.range'_append_1, List.zip_append (by simp)]

section Calls

variable {a : Aggregation} {groupBy : List Expr} {aggregates : List (AggregateHead × Option Expr)}

/-- The first call is made first. -/
theorem run_cons (a : Aggregation) (c : Call) (calls : List Call) : a.run (c :: calls) = (c.run a).run calls := rfl

/-- A number that is given out is the place of its field. -/
theorem mem_numbered {start p : Nat} {fields : List AggregateField} {f : AggregateField} :
    (p, f) ∈ numbered start fields ↔ start ≤ p ∧ fields[p - start]? = some f := by
  induction fields generalizing start with
  | nil => simp [numbered]
  | cons x fields ih =>
    have ih := @ih (start + 1)
    simp only [numbered, List.length_cons, List.range'_succ, List.zip_cons_cons, List.mem_cons, Prod.mk.injEq] at ih ⊢
    rw [ih]
    constructor
    · rintro (⟨rfl, rfl⟩ | ⟨hle, hget⟩)
      · simp
      · have hsub : p - start = p - (start + 1) + 1 := by omega
        rw [hsub, List.getElem?_cons_succ]
        exact ⟨by omega, hget⟩
    · rintro ⟨hle, hget⟩
      by_cases hp : p = start
      · subst hp
        rw [Nat.sub_self, List.getElem?_cons_zero] at hget
        exact Or.inl ⟨rfl, (Option.some.inj hget).symm⟩
      · have hsub : p - start = p - (start + 1) + 1 := by omega
        rw [hsub, List.getElem?_cons_succ] at hget
        exact Or.inr ⟨by omega, hget⟩

/-- A call that is no split adds the field that it gives a position to, and else nothing. -/
theorem Holds.call (h : a.Holds groupBy aggregates) {c : Call} (hc : c ≠ .splitOffProject) :
    ∃ groupBy' aggregates' added, (c.run a).Holds groupBy' aggregates' ∧
      fieldList groupBy' aggregates' = fieldList groupBy aggregates ++ added ∧
      (c.given? a).toList = numbered (fieldList groupBy aggregates).length added := by
  cases c with
  | addGroupBy e =>
    rcases h.addGroupBy e with ⟨hok, rfl, hholds⟩ | ⟨error, heq⟩
    · refine ⟨_, _, [.groupBy e], hholds, fieldList_append_groupBy e, ?_⟩
      simp [Call.given?, hok, numbered, Except.toOption]
    · refine ⟨groupBy, aggregates, [], ?_, (List.append_nil _).symm, ?_⟩
      · rw [Call.run, heq]
        exact h
      · simp [Call.given?, heq, numbered, Except.toOption]
  | addAggregate f operand =>
    obtain ⟨hok, hholds⟩ := h.addAggregate f operand
    refine ⟨_, _, [.aggregate f operand], hholds, fieldList_append_aggregate (f, operand), ?_⟩
    simp [Call.given?, hok, numbered, Except.toOption]
  | splitOffProject => exact absurd rfl hc

/-- Without a split, calls only add fields behind those that are there, at the positions that they give. -/
theorem Holds.run (h : a.Holds groupBy aggregates) {calls : List Call} (hcalls : .splitOffProject ∉ calls) :
    ∃ groupBy' aggregates' added, (a.run calls).Holds groupBy' aggregates' ∧
      fieldList groupBy' aggregates' = fieldList groupBy aggregates ++ added ∧
      a.given calls = numbered (fieldList groupBy aggregates).length added := by
  induction calls generalizing a groupBy aggregates with
  | nil => exact ⟨groupBy, aggregates, [], h, (List.append_nil _).symm, rfl⟩
  | cons c calls ih =>
    rw [List.mem_cons, not_or] at hcalls
    obtain ⟨groupBy₁, aggregates₁, added₁, h₁, hlist₁, hgiven₁⟩ := h.call fun hc => hcalls.1 hc.symm
    obtain ⟨groupBy₂, aggregates₂, added₂, h₂, hlist₂, hgiven₂⟩ := ih h₁ hcalls.2
    refine ⟨groupBy₂, aggregates₂, added₁ ++ added₂, h₂, ?_, ?_⟩
    · rw [hlist₂, hlist₁, List.append_assoc]
    · rw [given, hgiven₁, hgiven₂, hlist₁, List.length_append, numbered_append]

end Calls

/-! ## The split -/

/-- Aggregates are taken apart list by list. -/
theorem takeApart_map (aggregates : List (AggregateHead × Option Expr)) :
    takeApart (aggregates.map fun x => .aggregate x.1 x.2) =
      some (aggregates.map fun x => operandOf x.1 x.2, aggregates.map fun x => functionOf x.1 x.2,
        aggregates.map fun x => x.1.overload, aggregates.map fun x => x.1.option) := by
  induction aggregates with
  | nil => rfl
  | cons x aggregates ih => simp [takeApart, ih]

/-- What the split hands out for an aggregate is what the projection computes for the field. -/
theorem operandOf_eq (f : AggregateHead) (operand : Option Expr) :
    operandOf f operand = (AggregateField.aggregate f operand).operand := by
  cases operand with
  | some operand => rfl
  | none =>
    simp only [operandOf, AggregateField.operand]
    cases f.type <;> rfl

/-- What the split leaves of the name of a function is what remains without the operand. -/
theorem functionOf_eq (f : AggregateHead) (operand : Option Expr) : functionOf f operand = f.remnant operand := by
  cases operand <;> simp [functionOf, AggregateHead.remnant]

/-- What is left of an aggregation that is split. -/
def leftOver (groupBy : List Expr) (aggregates : List (AggregateHead × Option Expr)) : SplitAggregates where
  groupBy := groupBy.length
  functions := aggregates.map fun x => x.1.remnant x.2
  overloads := aggregates.map fun x => x.1.overload
  options := aggregates.map fun x => x.1.option

/-- The split hands out the operands of all fields. -/
theorem Holds.splitOffProject {a : Aggregation} {groupBy : List Expr} {aggregates : List (AggregateHead × Option Expr)}
    (h : a.Holds groupBy aggregates) :
    a.splitOffProject =
      (.ok ((fieldList groupBy aggregates).map AggregateField.operand), { a with phase := .split (leftOver groupBy aggregates) }) := by
  have hfields : groupBy ++ aggregates.map (fun x => operandOf x.1 x.2) =
      (fieldList groupBy aggregates).map AggregateField.operand := by
    rw [fieldList, List.map_append, List.map_map, List.map_map]
    simp only [operandOf_eq]
    congr 1
    exact (List.map_id _).symm
  have htake := takeApart_map aggregates
  simp only [functionOf_eq] at htake
  rcases h with ⟨h, rfl⟩ | h
  · simp only [Aggregation.splitOffProject, h, List.map_nil] at htake hfields ⊢
    rw [htake, ← hfields]
    rfl
  · simp only [Aggregation.splitOffProject, h]
    rw [htake, ← hfields]
    rfl

/-! ## The whole life -/

/-- The positions given out are those of the fields, and each has the field that it was given to. -/
structure Filled (a : Aggregation) (given : List (Nat × AggregateField)) : Prop where
  final : ∀ p f, (p, f) ∈ given → a.field p = .ok f
  complete : ∀ p, p < a.phase.fieldCount ↔ ∃ f, (p, f) ∈ given

/-- An aggregation hands over some operands and leaves the rest of its aggregates to what it becomes. -/
structure HandsOver (a b : Aggregation) (given : List (Nat × AggregateField)) (operands : List Expr) : Prop where
  length : operands.length = a.phase.fieldCount
  /-- At each position there is the operand of the field that it was given to. -/
  operand : ∀ p f, (p, f) ∈ given → operands[p]? = some f.operand
  groupByCount : b.phase.groupByCount = a.phase.groupByCount
  aggregateCount : b.phase.aggregateCount = a.phase.aggregateCount
  fieldCount : b.phase.fieldCount = a.phase.fieldCount
  /-- The lists of what is left have one place for each aggregate, in the order of their positions. -/
  remnants : ∃ info, b.splitInfo = .ok info ∧ b.options = info.options ∧ info.groupBy = a.phase.groupByCount ∧
    info.functions.length = a.phase.aggregateCount ∧ info.overloads.length = a.phase.aggregateCount ∧
    info.options.length = a.phase.aggregateCount ∧
    ∀ p f operand, (p, .aggregate f operand) ∈ given → info.groupBy ≤ p ∧
      info.functions[p - info.groupBy]? = some (f.remnant operand) ∧
      info.overloads[p - info.groupBy]? = some f.overload ∧ info.options[p - info.groupBy]? = some f.option

/-- Every call fails, and none changes the aggregation. -/
structure Spent (a : Aggregation) : Prop where
  addGroupBy : ∀ e, ∃ error, a.addGroupBy e = (.error error, a)
  addAggregate : ∀ f operand, ∃ error, a.addAggregate f operand = (.error error, a)
  splitOffProject : ∃ error, a.splitOffProject = (.error error, a)
  groupBy : ∃ error, a.groupBy = .error error
  aggregates : ∃ error, a.aggregates = .error error
  field : ∀ p, ∃ error, a.field p = .error error

/-- After the split every call fails. -/
theorem spent_of_split {a : Aggregation} {info : SplitAggregates} (h : a.phase = .split info) : a.Spent := by
  constructor
  case addGroupBy =>
    intro e
    simp only [Aggregation.addGroupBy, h]
    exact ⟨_, rfl⟩
  case addAggregate =>
    intro f operand
    simp only [Aggregation.addAggregate, h]
    exact ⟨_, rfl⟩
  case splitOffProject =>
    simp only [Aggregation.splitOffProject, h]
    exact ⟨_, rfl⟩
  case groupBy =>
    simp only [Aggregation.groupBy, h]
    exact ⟨_, rfl⟩
  case aggregates =>
    simp only [Aggregation.aggregates, h]
    exact ⟨_, rfl⟩
  case field =>
    intro p
    simp only [Aggregation.field, h]
    exact ⟨_, rfl⟩

/-- Calls on an aggregation that is spent leave it as it is. -/
theorem Spent.run {a : Aggregation} (h : a.Spent) (calls : List Call) : a.run calls = a := by
  induction calls with
  | nil => rfl
  | cons c calls ih =>
    have hc : c.run a = a := by
      cases c with
      | addGroupBy e =>
        obtain ⟨_, heq⟩ := h.addGroupBy e
        rw [Call.run, heq]
      | addAggregate f operand =>
        obtain ⟨_, heq⟩ := h.addAggregate f operand
        rw [Call.run, heq]
      | splitOffProject =>
        obtain ⟨_, heq⟩ := h.splitOffProject
        rw [Call.run, heq]
    rw [run_cons, hc, ih]

section Life

variable {a : Aggregation} {groupBy : List Expr} {aggregates : List (AggregateHead × Option Expr)}

/-- The positions of an aggregation are those of the fields that it holds. -/
theorem Holds.filled (h : a.Holds groupBy aggregates) : a.Filled (numbered 0 (fieldList groupBy aggregates)) := by
  refine ⟨?_, ?_⟩
  · intro p f hmem
    exact h.field (mem_numbered.1 hmem).2
  · intro p
    rw [h.fieldCount]
    simp only [mem_numbered, Nat.zero_le, true_and, Nat.sub_zero]
    constructor
    · intro hlt
      exact ⟨_, List.getElem?_eq_getElem hlt⟩
    · rintro ⟨f, hf⟩
      exact (List.getElem?_eq_some_iff.1 hf).1

/-- The place of an aggregate among the fields is its place among the aggregates. -/
theorem getElem?_of_aggregate {p : Nat} {f : AggregateHead} {operand : Option Expr}
    (h : (fieldList groupBy aggregates)[p]? = some (.aggregate f operand)) :
    groupBy.length ≤ p ∧ aggregates[p - groupBy.length]? = some (f, operand) := by
  rw [fieldList, List.getElem?_append, List.length_map, List.getElem?_map, List.getElem?_map] at h
  split at h
  · obtain ⟨e, -, heq⟩ := Option.map_eq_some_iff.1 h
    cases heq
  · rename_i hle
    obtain ⟨x, hx, heq⟩ := Option.map_eq_some_iff.1 h
    cases heq
    exact ⟨Nat.not_lt.1 hle, hx⟩

/-- The split hands over the operands of all fields and leaves functions, overloads and options. -/
theorem Holds.handsOver (h : a.Holds groupBy aggregates) :
    a.HandsOver { a with phase := .split (leftOver groupBy aggregates) } (numbered 0 (fieldList groupBy aggregates))
      ((fieldList groupBy aggregates).map AggregateField.operand) := by
  have hgroupBy : a.phase.groupByCount = groupBy.length := h.groupByCount
  have haggregates : a.phase.aggregateCount = aggregates.length := h.aggregateCount
  refine ⟨?_, ?_, ?_, ?_, ?_, leftOver groupBy aggregates, rfl, rfl, ?_, ?_, ?_, ?_, ?_⟩
  · rw [List.length_map, h.fieldCount]
  · intro p f hmem
    have hget := (mem_numbered.1 hmem).2
    rw [Nat.sub_zero] at hget
    rw [List.getElem?_map, hget, Option.map_some]
  · rw [hgroupBy]
    rfl
  · rw [haggregates]
    exact List.length_map _
  · rw [h.fieldCount, length_fieldList]
    exact congrArg (groupBy.length + ·) (List.length_map _)
  · exact hgroupBy.symm
  · rw [haggregates]
    exact List.length_map _
  · rw [haggregates]
    exact List.length_map _
  · rw [haggregates]
    exact List.length_map _
  · intro p f operand hmem
    obtain ⟨hle, hget⟩ := getElem?_of_aggregate (by simpa using (mem_numbered.1 hmem).2)
    simp only [leftOver, List.getElem?_map, hget, Option.map_some, and_self, and_true]
    exact hle

end Life

/-- Until the split, every position that was given out has the field that it was given to. The first split succeeds and hands
over the operands of all fields in their order; afterwards every call fails, and none changes anything. -/
theorem filled_and_handed_over (id : Int) (groupBy : List Expr) {calls : List Call} (hcalls : .splitOffProject ∉ calls) :
    let start := ofGroupBy id groupBy
    let a := start.run calls
    let given := numbered 0 (groupBy.map .groupBy) ++ start.given calls
    a.Filled given ∧
      ∃ operands b, a.splitOffProject = (.ok operands, b) ∧ a.HandsOver b given operands ∧ b.Spent ∧
        ∀ later, b.run later = b := by
  intro start a given
  obtain ⟨groupBy', aggregates', added, h, hlist, hgiven⟩ := (holds_ofGroupBy id groupBy).run hcalls
  have hall : given = numbered 0 (fieldList groupBy' aggregates') := by
    simp only [given, start]
    rw [hgiven, hlist, fieldList, List.map_nil, List.append_nil, List.length_map, numbered_append, List.length_map,
      Nat.zero_add]
  have hspent : ({ a with phase := .split (leftOver groupBy' aggregates') } : Aggregation).Spent := spent_of_split rfl
  rw [hall]
  exact ⟨h.filled, _, _, h.splitOffProject, h.handsOver, hspent, hspent.run⟩

namespace CountedOrders

/-- One grouping expression, a sum and two counts. -/
def calls : List Call :=
  [.addAggregate ⟨"SUM", false, none, none, none⟩ (some (.long 7)), .addAggregate .countStar none, .addGroupBy (.long 2),
    .addAggregate ⟨"COUNT", false, some "fast", none, none⟩ none]

end CountedOrders

open CountedOrders in
/-- A grouping expression behind aggregates is refused; a count without operand reads a one, of type BIGINT if it has none. -/
theorem filled_and_handed_over_of_counts :
    .splitOffProject ∉ calls ∧ (((ofGroupBy 1 [.long 5]).given calls).map (·.1)) = [1, 2, 3] ∧
      ((ofGroupBy 1 [.long 5]).run calls).splitOffProject.1 = .ok [.long 5, .long 7, .long 1, .long 1] ∧
      ((ofGroupBy 1 [.long 5]).run calls).splitOffProject.2.splitInfo =
        .ok ⟨1, ["SUM", "COUNT(*)", "COUNT(*)"], [none, none, none], [none, none, some "fast"]⟩ ∧
      ((ofGroupBy 1 [.long 5]).run calls).Filled
        (numbered 0 ([.long 5].map .groupBy) ++ (ofGroupBy 1 [.long 5]).given calls) := by
  have hcalls : .splitOffProject ∉ calls := by simp [calls]
  exact ⟨hcalls, rfl, rfl, rfl, (filled_and_handed_over 1 [.long 5] hcalls).1⟩

end Aggregation

end ClusterPlan
