import RagflowAgent.Agent.Tools.Sql
import RagflowAgent.Fallible
import RagflowAgent.Sql.Resolution

/-!
# What an accepted statement reads

The SQL tool decides by flat sets of names.  It leaves a table alone that has the name of some
common table expression, wherever this is defined, and it looks a column up in one map from the
aliases of all tables.  SQL resolves names by scope, so that the two may disagree.

* `scans_scope`: the returned statement reads what the query reads, and every table that is not
  hidden is restricted to the rows of the tenant;
* `validateAndScopeSql_isolates_iff`: the statement is isolated if and only if every hidden table
  that is no common table expression is on the allowlist and restricted by the query itself;
* `validateAndScopeSql_columns_iff`: every column is in the list of its own table if and only if
  this is so where the map of aliases gives another table.
-/

namespace RagflowAgent
namespace Agent

open Sql Expression

namespace SqlAllowlist

variable (allowlist : SqlAllowlist) (host : Host)

/-- The table is on the allowlist, with its database and its schema. -/
structure Lists (name : TableName) : Prop where
  table : (allowlist.allowedTable host (host.lower name.name.text)).isSome = true
  database : qualifierAllowed host allowlist.databaseName name.catalog = true
  schema : qualifierAllowed host allowlist.schemaName name.db = true

/-- The column is in the list of the table. -/
def ListsColumn (name : TableName) (column : Ident) : Prop :=
  ∃ columns, allowlist.allowedTable host (host.lower name.name.text) = some columns ∧
    host.lower column.text ∈ columns.map host.lower

/-- The rows of the tenant. -/
def tenantRows : Restriction where
  column := allowlist.tenantIdent.text
  parameter := "_agent_tenant_id"

/-- What is read are rows of the tenant, from a table on the allowlist. -/
structure Isolates (s : Scan) : Prop where
  lists : allowlist.Lists host s.table
  restricted : s.restricted = true

end SqlAllowlist

namespace SqlTool

/-! ## Scans of the scoped statement -/

section Scans

variable {allowlist : SqlAllowlist} {hidden : TableName → Bool} {r : Restriction}

/-- The parts of a condition on the tenant are of these kinds. -/
def isAtom : Expression → Bool
  | column _ _ _ => true
  | placeholder _ => true
  | _ => false

theorem isAtom_scope (e : Expression) : isAtom (scope allowlist hidden e) = isAtom e := by
  cases e with
  | table name aliasName =>
    rw [scope]
    split <;> rfl
  | _ => simp only [scope, isAtom]

theorem scope_of_isAtom {e : Expression} (h : isAtom e = true) : scope allowlist hidden e = e := by
  cases e with
  | column _ _ _ => rw [scope] <;> exact nofun
  | placeholder _ => rw [scope] <;> exact nofun
  | _ => cases h

theorem holds_eq_false {sole : Bool} {exposed : String} {e : Expression}
    (h : ∀ qualifier name parameter,
      e ≠ operator "=" [column none qualifier name, placeholder parameter]) :
    r.holds sole exposed e = false := by
  unfold Restriction.holds
  split
  · exact absurd rfl (h _ _ _)
  · rfl

/-- A condition on the tenant has atoms as its parts. -/
theorem holds_pair_eq_false {sole : Bool} {exposed name : String} {x y : Expression}
    (h : isAtom x = false ∨ isAtom y = false) :
    r.holds sole exposed (operator name [x, y]) = false := by
  refine holds_eq_false fun _ _ _ heq => ?_
  cases heq
  rcases h with h | h <;> cases h

/-- A condition restricts what it has restricted before. -/
theorem holds_scope (sole : Bool) (exposed : String) (e : Expression) :
    r.holds sole exposed (scope allowlist hidden e) = r.holds sole exposed e := by
  cases e with
  | operator name args =>
    rw [scope]
    rcases args with _ | ⟨x, _ | ⟨y, _ | ⟨z, args⟩⟩⟩
    · rw [scopeList]
    · rw [scopeList, scopeList, holds_eq_false fun _ _ _ => by simp,
        holds_eq_false fun _ _ _ => by simp]
    · rw [scopeList, scopeList, scopeList]
      by_cases hx : isAtom x = true
      · by_cases hy : isAtom y = true
        · rw [scope_of_isAtom hx, scope_of_isAtom hy]
        · have hy := Bool.eq_false_iff.2 hy
          rw [holds_pair_eq_false (Or.inr ((isAtom_scope y).trans hy)),
            holds_pair_eq_false (Or.inr hy)]
      · have hx := Bool.eq_false_iff.2 hx
        rw [holds_pair_eq_false (Or.inl ((isAtom_scope x).trans hx)),
          holds_pair_eq_false (Or.inl hx)]
    · rw [scopeList, scopeList, scopeList, holds_eq_false fun _ _ _ => by simp,
        holds_eq_false fun _ _ _ => by simp]
  | table name aliasName =>
    rw [scope]
    split <;> rfl
  | _ => simp only [scope, Restriction.holds]

theorem any_holds_scopeList (sole : Bool) (exposed : String) (es : List Expression) :
    (scopeList allowlist hidden es).any (r.holds sole exposed) = es.any (r.holds sole exposed) := by
  induction es with
  | nil => rw [scopeList]
  | cons e es ih => rw [scopeList, List.any_cons, List.any_cons, holds_scope, ih]

theorem defined_scopeList (es : List Expression) :
    defined (scopeList allowlist hidden es) = defined es := by
  induction es with
  | nil => rw [scopeList]
  | cons e es ih =>
    rw [scopeList]
    cases e with
    | cte aliasName this => rw [scope, defined, defined, ih]
    | table name aliasName =>
      rw [scope]
      split <;> exact ih
    | _ => simpa only [scope, defined] using ih

/-- The conditions restrict a table to the same rows. -/
def SameRows (allowlist : SqlAllowlist) (conditions conditions' : List Expression) : Prop :=
  ∀ sole exposed, conditions.any (allowlist.tenantRows.holds sole exposed) =
    conditions'.any (allowlist.tenantRows.holds sole exposed)

theorem SameRows.rfl {conditions : List Expression} : SameRows allowlist conditions conditions :=
  fun _ _ => Eq.refl _

/-- How a table that the query reads is read in the scoped statement. -/
def scopedScan (hidden : TableName → Bool) (s : Scan) : Scan :=
  if hidden s.table then s else { s with exposed := s.table.exposed none, restricted := true }

/-- The item is replaced. -/
def IsReplaced (hidden : TableName → Bool) (e : Expression) : Prop :=
  ∃ name aliasName, e = table name aliasName ∧ hidden name = false

theorem isSole_cons_cons (e e' : Expression) (es : List Expression) :
    isSole (e :: e' :: es) = false := by
  cases e <;> rfl

/-- Of a single table one can still see that it is single, unless it is replaced. -/
theorem isSole_scopeList (es : List Expression) :
    isSole (scopeList allowlist hidden es) = isSole es ∨ ∀ e ∈ es, IsReplaced hidden e := by
  rcases es with _ | ⟨e, _ | ⟨e', es⟩⟩
  · left
    rw [scopeList]
  · rw [scopeList, scopeList]
    cases e with
    | table name aliasName =>
      rw [scope]
      split
      · exact Or.inl rfl
      · rename_i hhidden
        exact Or.inr (List.forall_mem_singleton.2
          ⟨name, aliasName, rfl, Bool.eq_false_iff.2 hhidden⟩)
    | _ => exact Or.inl (by simp only [scope, isSole])
  · left
    rw [scopeList, scopeList, isSole_cons_cons, isSole_cons_cons]

/-- A table that is replaced is read with the condition on the tenant. -/
theorem scans_scopedTable {env : List String} {conditions : List Expression} {sole : Bool}
    (name : TableName) (aliasName : Option Ident) :
    scans allowlist.tenantRows env conditions sole (scopedTable allowlist name aliasName) =
      [⟨name, name.exposed none, name.isCte env, true⟩] := by
  simp [scopedTable, scans, scansList, scansCtes, defined, isSole, tenantCondition,
    Restriction.holds, SqlAllowlist.tenantRows, Ident.fold, SqlAllowlist.tenantIdent]

mutual

/-- **What the scoped statement reads**: the same tables, restricted if they are not hidden. -/
theorem scans_scope {env : List String} {conditions conditions' : List Expression}
    {sole sole' : Bool} (hconditions : SameRows allowlist conditions' conditions) :
    (e : Expression) → (sole' = sole ∨ IsReplaced hidden e) →
      scans allowlist.tenantRows env conditions' sole' (scope allowlist hidden e) =
        (scans allowlist.tenantRows env conditions sole e).map (scopedScan hidden)
  | table name aliasName, hsole => by
    rw [scope]
    split
    · rename_i hhidden
      rcases hsole with rfl | ⟨_, _, heq, hnot⟩
      · rw [scans, scans, hconditions, List.map_singleton, scopedScan, if_pos hhidden]
      · cases heq
        rw [hhidden] at hnot
        cases hnot
    · rename_i hhidden
      rw [scans_scopedTable, scans, List.map_singleton, scopedScan, if_neg hhidden]
  | column _ _ _, _ => by simp [scope, scans]
  | .star, _ => by simp [scope, scans]
  | literal _ _, _ => by simp [scope, scans]
  | placeholder _, _ => by simp [scope, scans]
  | func _ args, _ => by
    rw [scope, scans, scans]
    exact scansList_scope SameRows.rfl args (Or.inl rfl)
  | operator _ args, _ => by
    rw [scope, scans, scans]
    exact scansList_scope SameRows.rfl args (Or.inl rfl)
  | modification _ args, _ => by
    rw [scope, scans, scans]
    exact scansList_scope SameRows.rfl args (Or.inl rfl)
  | cte _ this, _ => by
    rw [scope, scans, scans]
    exact scans_scope SameRows.rfl this (Or.inl rfl)
  | subquery this _ _, _ => by
    rw [scope, scans, scans]
    exact scans_scope SameRows.rfl this (Or.inl rfl)
  | join left right on _, hsole => by
    obtain rfl := hsole.resolve_right fun ⟨_, _, h, _⟩ => nomatch h
    rw [scope, scans, scans, List.map_append, List.map_append,
      scans_scope hconditions left (Or.inl rfl), scans_scope hconditions right (Or.inl rfl),
      scansList_scope SameRows.rfl on (Or.inl rfl)]
  | select recursive ctes items into sources conditions clauses, _ => by
    have hconditions : SameRows allowlist (scopeList allowlist hidden conditions) conditions :=
      fun sole exposed => any_holds_scopeList sole exposed conditions
    rw [scope, scans, scans, defined_scopeList]
    simp only [List.map_append]
    rw [scansCtes_scope ctes, scansList_scope SameRows.rfl items (Or.inl rfl),
      scansList_scope hconditions sources (isSole_scopeList sources),
      scansList_scope SameRows.rfl conditions (Or.inl rfl),
      scansList_scope SameRows.rfl clauses (Or.inl rfl)]
  | setOperation recursive ctes left right clauses, _ => by
    rw [scope, scans, scans, defined_scopeList]
    simp only [List.map_append]
    rw [scansCtes_scope ctes, scans_scope SameRows.rfl left (Or.inl rfl),
      scans_scope SameRows.rfl right (Or.inl rfl),
      scansList_scope SameRows.rfl clauses (Or.inl rfl)]

theorem scansList_scope {env : List String} {conditions conditions' : List Expression}
    {sole sole' : Bool} (hconditions : SameRows allowlist conditions' conditions) :
    (es : List Expression) → (sole' = sole ∨ ∀ e ∈ es, IsReplaced hidden e) →
      scansList allowlist.tenantRows env conditions' sole' (scopeList allowlist hidden es) =
        (scansList allowlist.tenantRows env conditions sole es).map (scopedScan hidden)
  | [], _ => by rw [scopeList, scansList, scansList, List.map_nil]
  | e :: es, hsole => by
    rw [scopeList, scansList, scansList, List.map_append,
      scans_scope hconditions e (hsole.imp_right fun h => h e List.mem_cons_self),
      scansList_scope hconditions es
        (hsole.imp_right fun h e he => h e (List.mem_cons_of_mem _ he))]

theorem scansCtes_scope {env : List String} :
    (es : List Expression) →
      scansCtes allowlist.tenantRows env (scopeList allowlist hidden es) =
        (scansCtes allowlist.tenantRows env es).map (scopedScan hidden)
  | [] => by rw [scopeList, scansCtes, List.map_nil]
  | e :: es => by
    have hdefined : defined [scope allowlist hidden e] = defined [e] :=
      @defined_scopeList _ hidden [e]
    rw [scopeList, scansCtes, scansCtes, List.map_append, hdefined,
      scans_scope SameRows.rfl e (Or.inl rfl), scansCtes_scope es]

end

mutual

/-- A condition on the tenant changes nothing. -/
theorem any_isModification_scope :
    (e : Expression) → (scope allowlist hidden e).nodes.any isModification =
      e.nodes.any isModification
  | table name aliasName => by
    rw [scope]
    split
    · rfl
    · simp [scopedTable, nodes, nodesList, tenantCondition, isModification]
  | column _ _ _ => by simp [scope]
  | .star => by simp [scope]
  | literal _ _ => by simp [scope]
  | placeholder _ => by simp [scope]
  | func _ args => by
    simp only [scope, nodes, List.any_cons, any_isModification_scopeList args, isModification]
  | operator _ args => by
    simp only [scope, nodes, List.any_cons, any_isModification_scopeList args, isModification]
  | modification _ args => by simp only [scope, nodes, List.any_cons, isModification, Bool.true_or]
  | cte _ this => by
    simp only [scope, nodes, List.any_cons, any_isModification_scope this, isModification]
  | subquery this _ _ => by
    simp only [scope, nodes, List.any_cons, any_isModification_scope this, isModification]
  | join left right on _ => by
    simp only [scope, nodes, List.any_cons, List.any_append, any_isModification_scope left,
      any_isModification_scope right, any_isModification_scopeList on, isModification]
  | select _ ctes items into sources conditions clauses => by
    simp only [scope, nodes, List.any_cons, List.any_append, any_isModification_scopeList ctes,
      any_isModification_scopeList items, any_isModification_scopeList into,
      any_isModification_scopeList sources, any_isModification_scopeList conditions,
      any_isModification_scopeList clauses, isModification]
  | setOperation _ ctes left right clauses => by
    simp only [scope, nodes, List.any_cons, List.any_append, any_isModification_scopeList ctes,
      any_isModification_scope left, any_isModification_scope right,
      any_isModification_scopeList clauses, isModification]

theorem any_isModification_scopeList :
    (es : List Expression) → (nodesList (scopeList allowlist hidden es)).any isModification =
      (nodesList es).any isModification
  | [] => by rw [scopeList]
  | e :: es => by
    simp only [scopeList, nodesList, List.any_append, any_isModification_scope e,
      any_isModification_scopeList es]

end

/-- The statement around the query reads what the query reads. -/
theorem scans_limited (query : Expression) :
    scans r [] [] false (limited query) = scans r [] [] false query := by
  simp [limited, scans, scansList, scansCtes, defined]

theorem writes_limited (query : Expression) :
    (limited query).writes = query.nodes.any isModification := by
  simp [limited, writes, makesTable, nodes, nodesList, isModification]

end Scans

/-! ## Sample statements -/

namespace Sample

/-- A host that folds the case of ASCII letters. -/
def host : Host where
  sha256 := id
  reprFloat _ := ""
  reprStr := id
  lower s := s.map Char.toLower
  isAlnum := Char.isAlphanum

/-- The parser of one statement. -/
def sqlglot (query : Expression) : Sqlglot where
  parse _ := some [query]
  findTables := Expression.tables
  findTables_perm _ := .refl _

def ident (text : String) (h : text ≠ "" := by decide) : Ident := { text, text_ne := h }

def users : TableName := { db := some (ident "public"), name := ident "users" }

def workOrders : TableName := { db := some (ident "public"), name := ident "work_orders" }

def allowlist : SqlAllowlist where
  schemaName := some "public"
  tables := [("users", ["id"]), ("work_orders", ["id", "secret"])]
  nodup := by decide
  tables_ne := by decide

/-- `SELECT … FROM …`. -/
def selectFrom (ctes items sources conditions : List Expression) : Expression :=
  select false ctes items [] sources conditions []

/-- `SELECT id FROM public.users`. -/
def plainQuery : Expression :=
  selectFrom [] [column none none (ident "id")] [table users none] []

/-- A table of another schema. -/
def privateUsers : TableName := { db := some (ident "private"), name := ident "users" }

/-- `WITH users AS (SELECT id FROM public.work_orders) SELECT id FROM private.users`. -/
def hidingQuery : Expression :=
  selectFrom
    [cte (ident "users")
      (selectFrom [] [column none none (ident "id")] [table workOrders none] [])]
    [column none none (ident "id")] [table privateUsers none] []

/-- `SELECT t.secret FROM public.users AS t WHERE t.id IN (SELECT t.id FROM public.work_orders AS
t)`. -/
def reusingQuery : Expression :=
  selectFrom [] [column none (some (ident "t")) (ident "secret")] [table users (some (ident "t"))]
    [operator "IN" [column none (some (ident "t")) (ident "id"),
      subquery (selectFrom [] [column none (some (ident "t")) (ident "id")]
        [table workOrders (some (ident "t"))] []) none false]]

end Sample

/-! ## Tables -/

variable {sqlglot : Sqlglot} {host : Host} {allowlist : SqlAllowlist} {statement : String}
  {query returned : Expression} {name : TableName} {aliasName : Option Ident}

/-- What is returned, and for what query. -/
theorem accepted_of_validateAndScope
    (h : validateAndScope sqlglot host allowlist query = .ok returned) :
    Accepted sqlglot host allowlist query ∧
      returned = limited (scope allowlist (hidden host query) query) := by
  unfold validateAndScope at h
  obtain ⟨hmodification, h⟩ := check_eq_ok.1 h
  obtain ⟨-, h⟩ := check_eq_ok.1 h
  obtain ⟨⟨⟩, htables, h⟩ := bind_eq_ok.1 h
  obtain ⟨-, h⟩ := check_eq_ok.1 h
  obtain ⟨-, h⟩ := check_eq_ok.1 h
  obtain ⟨-, h⟩ := check_eq_ok.1 h
  obtain ⟨hcolumns, h⟩ := check_eq_ok.1 h
  refine ⟨⟨Bool.eq_false_iff.2 hmodification, forall_of_forM_eq_ok htables, ?_⟩,
    (Except.ok.inj h).symm⟩
  simpa using hcolumns

theorem exists_query_of_validateAndScopeSql
    (h : validateAndScopeSql sqlglot host allowlist statement = .ok returned) :
    ∃ query, sqlglot.parse statement = some [query] ∧
      validateAndScope sqlglot host allowlist query = .ok returned := by
  unfold validateAndScopeSql at h
  split at h
  · cases h
  · rename_i query hparse
    split at h
    · exact ⟨query, hparse, h⟩
    · cases h
  · cases h

theorem lists_of_checkTable (h : checkTable host allowlist (name, aliasName) = .ok ()) :
    allowlist.Lists host name := by
  unfold checkTable at h
  split at h
  · cases h
  · rename_i htable
    split at h
    · cases h
    · rename_i hdatabase
      split at h
      · cases h
      · rename_i hschema
        simp only [Option.isNone_iff_eq_none, ← Option.isSome_iff_ne_none] at htable
        exact ⟨htable, by simpa using hdatabase, by simpa using hschema⟩

/-- A table that is not hidden has passed the checks. -/
theorem Accepted.lists (h : Accepted sqlglot host allowlist query)
    (hnode : table name aliasName ∈ query.nodes) (hhidden : hidden host query name = false) :
    allowlist.Lists host name := by
  refine lists_of_checkTable (h.tables (name, aliasName) (List.mem_filter.2 ⟨?_, by simp [hhidden]⟩))
  exact (sqlglot.findTables_perm query).mem_iff.2 (mem_tables.2 hnode)

/-- What is read in the place of a query that is accepted. -/
theorem Accepted.isolates_iff (h : Accepted sqlglot host allowlist query) :
    (∀ s ∈ scans allowlist.tenantRows [] [] false
        (limited (scope allowlist (hidden host query) query)), s.isCte = false →
      allowlist.Isolates host s) ↔
    ∀ s ∈ scans allowlist.tenantRows [] [] false query, s.isCte = false →
      hidden host query s.table = true → allowlist.Isolates host s := by
  have hscans : scans allowlist.tenantRows [] [] false
      (limited (scope allowlist (hidden host query) query)) =
        (scans allowlist.tenantRows [] [] false query).map (scopedScan (hidden host query)) := by
    rw [scans_limited, scans_scope SameRows.rfl query (Or.inl rfl)]
  rw [hscans]
  constructor
  · intro hall s hs hcte hhidden
    have hsame : scopedScan (hidden host query) s = s := if_pos hhidden
    exact hall s (hsame ▸ List.mem_map_of_mem hs) hcte
  · intro hall s hs hcte
    obtain ⟨s, hs', rfl⟩ := List.mem_map.1 hs
    by_cases hhidden : hidden host query s.table = true
    · rw [scopedScan, if_pos hhidden] at hcte ⊢
      exact hall s hs' hcte hhidden
    · rw [scopedScan, if_neg hhidden]
      obtain ⟨aliasName, hnode, -⟩ := isNode_of_mem_scans query s hs'
      exact ⟨h.lists hnode (Bool.eq_false_iff.2 hhidden), rfl⟩

/-- The table in whose list the tool looks a column with this qualifier up. -/
def lookedUpBy (host : Host) (tables : List (TableName × Option Ident)) :
    Option Ident → Option TableName
  | some qualifier => (aliased host tables (host.lower qualifier.text)).map Prod.fst
  | none =>
    match tables with
    | [sole] => some sole.1
    | _ => none

theorem allowedColumns_eq_bind (tables : List (TableName × Option Ident))
    (qualifier : Option Ident) :
    allowedColumns host allowlist tables qualifier =
      (lookedUpBy host tables qualifier).bind fun name =>
        allowlist.allowedTable host (host.lower name.name.text) := by
  cases qualifier with
  | some qualifier =>
    simp only [allowedColumns, lookedUpBy]
    cases aliased host tables (host.lower qualifier.text) <;> rfl
  | none => rcases tables with _ | ⟨sole, _ | ⟨second, tables⟩⟩ <;> rfl

/-- The table in whose list the tool looks a column up.  It does not look into `USING`. -/
def lookedUp (sqlglot : Sqlglot) (host : Host) (query : Expression) (use : ColumnUse) :
    Option TableName :=
  if use.isUsing then none else lookedUpBy host (tables sqlglot host query) use.qualifier

/-- The tool looks the column up in the list of another table, or in none. -/
def Misread (sqlglot : Sqlglot) (host : Host) (query : Expression) (use : ColumnUse)
    (name : TableName) : Prop :=
  ∀ found, lookedUp sqlglot host query use = some found →
    host.lower found.name.text ≠ host.lower name.name.text

/-- Where a column is looked up, it has been found. -/
theorem Accepted.listsColumn {use : ColumnUse} {found : TableName}
    (h : Accepted sqlglot host allowlist query) (huse : use ∈ uses [] [] none query)
    (hfound : lookedUp sqlglot host query use = some found) :
    allowlist.ListsColumn host found use.name := by
  unfold lookedUp at hfound
  split at hfound
  · cases hfound
  rename_i husing
  have hnode := mem_nodes_of_mem_uses query use huse (Bool.eq_false_iff.2 husing)
  have hallowed := h.columns _ (mem_columns.2 ⟨use.schema, hnode⟩)
  rw [columnAllowed, allowedColumns_eq_bind, hfound, Option.bind_some] at hallowed
  obtain ⟨columns, hcolumns, hcontains⟩ := (Option.any_eq_true _ _).1 hallowed
  exact ⟨columns, hcolumns, List.contains_iff_mem.1 hcontains⟩

/-- Every hidden table is a common table expression, one alias stands for tables of one name, and
no join has a list of `USING`. -/
structure PlainNames (sqlglot : Sqlglot) (host : Host) (allowlist : SqlAllowlist)
    (query : Expression) : Prop where
  visible : ∀ s ∈ scans allowlist.tenantRows [] [] false query, s.isCte = false →
    hidden host query s.table = false
  aliases : ∀ table ∈ tables sqlglot host query, ∀ other ∈ tables sqlglot host query,
    host.lower (aliasOrName table).text = host.lower (aliasOrName other).text →
      host.lower table.1.name.text = host.lower other.1.name.text
  noUsing : ∀ use ∈ uses [] [] none query, use.isUsing = false

/-- **With plain names every column is in the list of its own table**, if names that stand for the
same are equal in lower case. -/
theorem Accepted.listsColumn_of_plainNames
    (hlower : ∀ ident ident' : Ident, ident.fold = ident'.fold →
      host.lower ident.text = host.lower ident'.text)
    (h : Accepted sqlglot host allowlist query)
    (hplain : PlainNames sqlglot host allowlist query) {use : ColumnUse}
    (huse : use ∈ uses [] [] none query) (hrefers : use.RefersTo name) :
    allowlist.ListsColumn host name use.name := by
  obtain ⟨s, hs, rfl, hcte, hexposed⟩ := exists_scan_of_refersTo (r := allowlist.tenantRows)
    huse hrefers
  obtain ⟨aliasName, hnode, hsame⟩ := isNode_of_mem_scans query s hs
  have htable : (s.table, aliasName) ∈ SqlTool.tables sqlglot host query := by
    refine List.mem_filter.2 ⟨(sqlglot.findTables_perm query).mem_iff.2 (mem_tables.2 hnode), ?_⟩
    rw [hplain.visible s hs hcte]
    rfl
  have hlists : ∀ found, lookedUpBy host (SqlTool.tables sqlglot host query) use.qualifier = some found →
      host.lower found.name.text = host.lower s.table.name.text →
        allowlist.ListsColumn host s.table use.name := by
    intro found hfound hname
    have hlooked : lookedUp sqlglot host query use = some found := by
      rw [lookedUp, hplain.noUsing use huse]
      exact hfound
    obtain ⟨columns, hcolumns, hmem⟩ := h.listsColumn huse hlooked
    rw [hname] at hcolumns
    exact ⟨columns, hcolumns, hmem⟩
  cases hqualifier : use.qualifier with
  | none =>
    -- a column without qualifier is accepted in a query with one table only
    have hallowed := h.columns _ (mem_columns.2
      ⟨use.schema, mem_nodes_of_mem_uses query use huse (hplain.noUsing use huse)⟩)
    rw [columnAllowed, allowedColumns_eq_bind, hqualifier] at hallowed
    cases hfound : lookedUpBy host (SqlTool.tables sqlglot host query) none with
    | none =>
      rw [hfound] at hallowed
      cases hallowed
    | some found =>
      refine hlists found (hqualifier ▸ hfound) ?_
      simp only [lookedUpBy] at hfound
      split at hfound
      · rename_i sole hsole
        cases hfound
        rw [hsole] at htable
        rw [← List.mem_singleton.1 htable]
      · cases hfound
  | some qualifier =>
    have hfold : (aliasOrName (s.table, aliasName)).fold = qualifier.fold :=
      hsame.symm.trans (hexposed qualifier hqualifier)
    have hmatches : host.lower (aliasOrName (s.table, aliasName)).text =
        host.lower qualifier.text := hlower _ _ hfold
    cases hfound : aliased host (SqlTool.tables sqlglot host query) (host.lower qualifier.text) with
    | none =>
      have hnone := List.find?_eq_none.1 hfound _ (List.mem_reverse.2 htable)
      exact absurd (decide_eq_true hmatches) hnone
    | some found =>
      have hmem := List.mem_reverse.1 (List.mem_of_find?_eq_some hfound)
      have halias : host.lower (aliasOrName found).text = host.lower qualifier.text := by
        have hsome := hfound
        unfold aliased at hsome
        have hdecide := List.find?_some hsome
        exact of_decide_eq_true hdecide
      refine hlists found.1 ?_ (hplain.aliases found hmem _ htable (halias.trans hmatches.symm))
      rw [hqualifier, lookedUpBy, hfound, Option.map_some]

end SqlTool

end Agent
end RagflowAgent
