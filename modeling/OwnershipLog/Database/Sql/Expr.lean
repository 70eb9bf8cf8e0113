/-!
# Expressions and queries

What the declarations of a database compute is written as expressions and
queries. The types here are their forms; names and literals are kept as they are
written, so a query means something only beside a schema.
-/

namespace OwnershipLog

/-- The operators with one operand. -/
inductive UnaryOp where
  | minus
  | plus
  | not
  | bitNot
  | isNull
  | notNull
deriving DecidableEq, Repr

/-- The operators with two operands. -/
inductive BinaryOp where
  | or
  | and
  | eq
  | ne
  | is
  | isNot
  | lt
  | le
  | gt
  | ge
  | bitAnd
  | bitOr
  | shiftLeft
  | shiftRight
  | add
  | subtract
  | multiply
  | divide
  | remainder
  | concat
  | extract
  | extractText
deriving DecidableEq, Repr

/-- How queries are joined. -/
inductive SetOp where
  | union
  | unionAll
  | except
  | intersect
deriving DecidableEq, Repr

mutual

/-- An expression. -/
inductive Expr where
  | null
  | whole (digits : String)
  | decimal (digits : String)
  | text (value : String)
  | blob (digits : String)
  | parameter
  /-- The time, the date or both. -/
  | moment (word : String)
  /-- A column, perhaps of a table that is named; in double quotes it may be a text. -/
  | column (table : Option String) (name : String) (inQuotes : Bool)
  | unary (op : UnaryOp) (e : Expr)
  | binary (op : BinaryOp) (a b : Expr)
  | between (e low high : Expr)
  | inList (e : Expr) (choices : List Expr)
  | inSelection (e : Expr) (choices : Selection)
  /-- A comparison by a pattern, the pattern first, perhaps with an escape character. -/
  | call (name : String) (distinct : Bool) (arguments : List Expr)
  /-- A function of all rows. -/
  | callOfAll (name : String)
  /-- A function of a window of rows. -/
  | windowed (name : String) (arguments : List Expr)
  | case (subject : Option Expr) (branches : List (Expr × Expr)) (otherwise : Option Expr)
  | cast (e : Expr) (type : String)
  | collate (e : Expr) (collation : String)
  | exists (q : Selection)
  | subquery (q : Selection)
  | row (es : List Expr)
  /-- End the statement, in one of several ways. -/
  | raise (way : String)

/-- A column of the result of a query. -/
inductive Result where
  | expr (e : Expr) (label : Option String)
  | all
  | allOf (table : String)

/-- Where a query takes its rows from. -/
inductive Source where
  | table (name : String) (label : Option String)
  | call (name : String) (arguments : List Expr) (label : Option String)
  | selection (q : Selection) (label : Option String)
  | group (sources : List Joined) (label : Option String)

/-- A source with how it is joined to those before it. -/
inductive Joined where
  | mk (source : Source) (outer natural : Bool) (on : Option Expr) (shared : List String)

/-- A key of the order of a query: whether it descends, and whether nulls come first. -/
inductive OrderTerm where
  | mk (e : Expr) (descending nullsFirst : Bool)

/-- A query. -/
inductive Selection where
  | select (distinct : Bool) (results : List Result) (sources : List Joined)
      (condition : Option Expr) (grouping : List Expr) (having : Option Expr)
  | values (rows : List (List Expr))
  | compound (op : SetOp) (a b : Selection)
  /-- The rows of a query in an order, and how many of them from where on. -/
  | ordered (q : Selection) (keys : List OrderTerm) (limit offset : Option Expr)
  /-- A query that may use other queries by their names. -/
  | naming (names : List (String × List String × Selection)) (q : Selection)

end

instance : Inhabited Expr := ⟨.null⟩

instance : Inhabited Selection := ⟨.values []⟩

namespace Expr

/-- The expressions that an expression is made of, queries apart. -/
def parts : Expr → List Expr
  | unary _ e => [e]
  | binary _ a b => [a, b]
  | between e low high => [e, low, high]
  | inList e choices => e :: choices
  | inSelection e _ => [e]
  | call _ _ arguments => arguments
  | windowed _ arguments => arguments
  | case subject branches otherwise =>
    subject.toList ++ branches.flatMap (fun branch => [branch.1, branch.2]) ++ otherwise.toList
  | cast e _ => [e]
  | collate e _ => [e]
  | row es => es
  | _ => []

theorem sizeOf_lt_of_mem_parts {a e : Expr} (h : a ∈ e.parts) : sizeOf a < sizeOf e := by
  cases e with
  | case subject branches otherwise =>
    simp only [parts, List.mem_append, Option.mem_toList, List.mem_flatMap] at h
    rcases h with (h | ⟨⟨b, c⟩, hb, h⟩) | h
    · cases subject <;> simp_all
      omega
    · have := List.sizeOf_lt_of_mem hb
      simp at h
      rcases h with rfl | rfl <;> simp_all <;> omega
    · cases otherwise <;> simp_all
      omega
  | inList e choices =>
    simp only [parts, List.mem_cons] at h
    rcases h with rfl | h
    · simp; omega
    · have := List.sizeOf_lt_of_mem h
      simp; omega
  | call name distinct arguments =>
    have : sizeOf a < sizeOf arguments := List.sizeOf_lt_of_mem h
    simp; omega
  | windowed name arguments =>
    have : sizeOf a < sizeOf arguments := List.sizeOf_lt_of_mem h
    simp; omega
  | row es =>
    have : sizeOf a < sizeOf es := List.sizeOf_lt_of_mem h
    simp; omega
  | _ => simp_all [parts] <;> (try rcases h with rfl | rfl | rfl) <;> (try simp) <;> omega

/-- Whether something holds of an expression and of all that it is made of. -/
def everywhere (holds : Expr → Bool) (e : Expr) : Bool :=
  holds e && e.parts.attach.all fun part => everywhere holds part.1
termination_by sizeOf e
decreasing_by exact sizeOf_lt_of_mem_parts part.2

/-- An expression without the collations around it. -/
def uncollated : Expr → Expr
  | collate e _ => uncollated e
  | e => e

end Expr

end OwnershipLog
