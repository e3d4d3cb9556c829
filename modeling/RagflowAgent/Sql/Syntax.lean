import Mathlib.Data.List.Defs
import Mathlib.Data.Nat.Notation

/-!
# Syntax trees of SQL statements

A statement is a tree of `Expression`s.  Queries, the tables in them and the columns they use
are all nodes of one type, so a program that inspects a statement can look for every node of a
kind, wherever it stands.

* `Ident` is an identifier, as it is written; `Ident.fold` is the name it stands for;
* `Expression` are the trees, and `Expression.nodes` are all the nodes of a tree;
* `Expression.tables`, `Expression.columns` and so on are the nodes of one kind.

What no analysis of names needs is not in a tree: the kind of a join, how an expression is
sorted, column lists of an alias.
-/

namespace RagflowAgent
namespace Sql

/-- An identifier.  There is no empty one. -/
structure Ident where
  text : String
  quoted : Bool := false
  text_ne : text ≠ "" := by decide
  deriving DecidableEq, Repr

/-- The name an identifier stands for: without quotes, upper case does not matter. -/
def Ident.fold (ident : Ident) : String :=
  if ident.quoted then ident.text else ident.text.map Char.toLower

/-- The name of a table, with the database and the schema if they are given. -/
structure TableName where
  catalog : Option Ident := none
  db : Option Ident := none
  name : Ident
  deriving DecidableEq, Repr

/-- A statement that changes something. -/
inductive Modification where
  | insert
  | update
  | delete
  | merge
  | create
  | drop
  | alter
  | command
  | transaction
  deriving DecidableEq, Repr

inductive Expression where
  | table (name : TableName) (aliasName : Option Ident)
  | column (schema qualifier : Option Ident) (name : Ident)
  | star
  | literal (isString : Bool) (value : String)
  | placeholder (name : String)
  | func (name : String) (args : List Expression)
  /-- Whatever has parts and is none of the others. -/
  | operator (name : String) (args : List Expression)
  | modification (kind : Modification) (args : List Expression)
  | cte (aliasName : Ident) (this : Expression)
  | subquery (this : Expression) (aliasName : Option Ident) (lateral : Bool)
  | join (left right : Expression) (on : List Expression) (usingNames : List Ident)
  /-- The conditions are the conjuncts of `WHERE`; other clauses are in `clauses`. -/
  | select (recursive : Bool) (ctes items into sources conditions clauses : List Expression)
  | setOperation (recursive : Bool) (ctes : List Expression) (left right : Expression)
      (clauses : List Expression)

namespace Expression

mutual

/-- All the nodes of a tree. -/
def nodes : Expression → List Expression
  | e@(func _ args) => e :: nodesList args
  | e@(operator _ args) => e :: nodesList args
  | e@(modification _ args) => e :: nodesList args
  | e@(cte _ this) => e :: nodes this
  | e@(subquery this _ _) => e :: nodes this
  | e@(join left right on _) => e :: (nodes left ++ nodes right ++ nodesList on)
  | e@(select _ ctes items into sources conditions clauses) =>
    e :: (nodesList ctes ++ nodesList items ++ nodesList into ++ nodesList sources ++
      nodesList conditions ++ nodesList clauses)
  | e@(setOperation _ ctes left right clauses) =>
    e :: (nodesList ctes ++ nodes left ++ nodes right ++ nodesList clauses)
  | e => [e]

def nodesList : List Expression → List Expression
  | [] => []
  | e :: es => nodes e ++ nodesList es

end

/-- A tree is a node of itself. -/
theorem mem_nodes_self (e : Expression) : e ∈ e.nodes := by
  cases e <;> simp [nodes]

/-- `find_all(exp.Table)`, with their aliases. -/
def tables (e : Expression) : List (TableName × Option Ident) :=
  e.nodes.filterMap fun
    | table name aliasName => some (name, aliasName)
    | _ => none

/-- `find_all(exp.Column)`: qualifier and name. -/
def columns (e : Expression) : List (Option Ident × Ident) :=
  e.nodes.filterMap fun
    | column _ qualifier name => some (qualifier, name)
    | _ => none

/-- The names of the `find_all(exp.CTE)`. -/
def cteNames (e : Expression) : List Ident :=
  e.nodes.filterMap fun
    | cte aliasName _ => some aliasName
    | _ => none

/-- The names of the `find_all(exp.Func)`. -/
def funcNames (e : Expression) : List String :=
  e.nodes.filterMap fun
    | func name _ => some name
    | _ => none

def isModification : Expression → Bool
  | modification _ _ => true
  | _ => false

def isStar : Expression → Bool
  | star => true
  | _ => false

def isStringLiteral : Expression → Bool
  | literal isString _ => isString
  | _ => false

/-- The statement is a query. -/
def isQuery : Expression → Bool
  | select _ _ _ _ _ _ _ => true
  | setOperation _ _ _ _ _ => true
  | _ => false

/-- A new table is filled with the rows, as `SELECT … INTO` says.  In a subquery this is an error
of the server. -/
def makesTable : Expression → Bool
  | select _ _ _ into _ _ _ => !into.isEmpty
  | setOperation _ _ left _ _ => makesTable left
  | _ => false

/-- The statement changes something. -/
def writes (e : Expression) : Bool := e.nodes.any isModification || e.makesTable

theorem mem_tables {e : Expression} {name : TableName} {aliasName : Option Ident} :
    (name, aliasName) ∈ e.tables ↔ table name aliasName ∈ e.nodes := by
  rw [tables, List.mem_filterMap]
  constructor
  · rintro ⟨node, hnode, h⟩
    split at h
    · cases h
      exact hnode
    · cases h
  · exact fun h => ⟨_, h, rfl⟩

theorem mem_columns {e : Expression} {qualifier : Option Ident} {name : Ident} :
    (qualifier, name) ∈ e.columns ↔ ∃ schema, column schema qualifier name ∈ e.nodes := by
  rw [columns, List.mem_filterMap]
  constructor
  · rintro ⟨node, hnode, h⟩
    split at h
    · cases h
      exact ⟨_, hnode⟩
    · cases h
  · exact fun ⟨schema, h⟩ => ⟨_, h, rfl⟩

end Expression

end Sql
end RagflowAgent
