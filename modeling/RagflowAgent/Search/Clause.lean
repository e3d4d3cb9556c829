import Mathlib.Data.Nat.Notation

/-!
# Query clauses of a search engine

The filter clauses of a document store that is searched by field: a document is a finite
list of values for each field, a *term* asks whether one of them equals a given value, and a
*bool* clause combines clauses.  A field without values is a missing field, and no term and
no range ever matches it.

* `Clause` is the syntax, over the scalars `α` that a query can mention;
* `Comparison` says how the engine compares a stored value with a scalar, field by field;
* `Clause.eval` is the meaning, and `Clause.Matches` with its lemmas is how it is used.

What a comparison does is not fixed here: it depends on the type a field is mapped to.
-/

namespace RagflowAgent
namespace Search

/-- The two ends of a range. -/
inductive RangeOperator where
  | gte
  | lte
  deriving DecidableEq, Repr

/-- Filter clauses over scalars in `α`. -/
inductive Clause (α : Type) where
  | term (field : String) (value : α)
  | terms (field : String) (values : List α)
  | range (field : String) (operator : RangeOperator) (bound : α)
  | hasField (field : String)
  | bool (filter mustNot should : List (Clause α)) (minimumShouldMatch : ℕ)

/-- How stored values in `β` are compared with scalars in `α`. -/
structure Comparison (α β : Type) where
  term : String → β → α → Bool
  range : String → RangeOperator → β → α → Bool

namespace Clause

variable {α β : Type} (cmp : Comparison α β) (source : String → List β)

mutual

/-- Whether a document with these values matches a clause. -/
def eval : Clause α → Bool
  | term field value => (source field).any (cmp.term field · value)
  | terms field values => (source field).any fun b => values.any (cmp.term field b ·)
  | range field operator bound => (source field).any (cmp.range field operator · bound)
  | hasField field => !(source field).isEmpty
  | bool filter mustNot should minimumShouldMatch =>
    (evals filter).all id && (evals mustNot).all not &&
      decide (minimumShouldMatch ≤ (evals should).count true)

def evals : List (Clause α) → List Bool
  | [] => []
  | clause :: clauses => eval clause :: evals clauses

end

theorem evals_eq_map (clauses : List (Clause α)) :
    evals cmp source clauses = clauses.map (eval cmp source) := by
  induction clauses with
  | nil => rw [evals, List.map_nil]
  | cons clause clauses ih => rw [evals, ih, List.map_cons]

/-- A document matches a clause. -/
def Matches (clause : Clause α) : Prop := eval cmp source clause = true

instance (clause : Clause α) : Decidable (clause.Matches cmp source) :=
  inferInstanceAs (Decidable (_ = true))

variable {cmp source}

@[simp] theorem matches_term {field : String} {value : α} :
    (term field value).Matches cmp source ↔ ∃ b ∈ source field, cmp.term field b value = true := by
  simp [Matches, eval]

@[simp] theorem matches_terms {field : String} {values : List α} :
    (terms field values).Matches cmp source ↔
      ∃ b ∈ source field, ∃ a ∈ values, cmp.term field b a = true := by
  simp [Matches, eval]

@[simp] theorem matches_range {field : String} {operator : RangeOperator} {bound : α} :
    (range field operator bound).Matches cmp source ↔
      ∃ b ∈ source field, cmp.range field operator b bound = true := by
  simp [Matches, eval]

@[simp] theorem matches_hasField {field : String} :
    (hasField field : Clause α).Matches cmp source ↔ source field ≠ [] := by
  simp [Matches, eval]

/-- A bool clause matches when all filters do, no exclusion does, and enough of the
optional clauses do. -/
theorem matches_bool {filter mustNot should : List (Clause α)} {n : ℕ} :
    (bool filter mustNot should n).Matches cmp source ↔
      (∀ clause ∈ filter, clause.Matches cmp source) ∧
        (∀ clause ∈ mustNot, ¬ clause.Matches cmp source) ∧
          n ≤ should.countP (eval cmp source) := by
  have hcount : (should.map (eval cmp source)).count true = should.countP (eval cmp source) := by
    rw [List.count, List.countP_map]
    exact List.countP_congr fun clause _ => by simp
  rw [Matches, eval, evals_eq_map, evals_eq_map, evals_eq_map, hcount, Bool.and_eq_true,
    Bool.and_eq_true, decide_eq_true_iff, and_assoc]
  simp [Matches]

/-- A conjunction. -/
@[simp] theorem matches_filter {filter : List (Clause α)} :
    (bool filter [] [] 0).Matches cmp source ↔ ∀ clause ∈ filter, clause.Matches cmp source := by
  simp [matches_bool]

/-- Exclusions. -/
@[simp] theorem matches_mustNot {mustNot : List (Clause α)} :
    (bool [] mustNot [] 0).Matches cmp source ↔
      ∀ clause ∈ mustNot, ¬ clause.Matches cmp source := by
  simp [matches_bool]

/-- A disjunction. -/
@[simp] theorem matches_should {should : List (Clause α)} :
    (bool [] [] should 1).Matches cmp source ↔ ∃ clause ∈ should, clause.Matches cmp source := by
  have hpos : 1 ≤ should.countP (eval cmp source) ↔ ∃ clause ∈ should, clause.Matches cmp source :=
    List.countP_pos_iff
  rw [matches_bool, hpos]
  simp

end Clause

end Search
end RagflowAgent
