import DDAG.Lib.Loop
import Mathlib.Data.List.Basic

/-!
# The three template scanners

`bindDialect`, `ExtractParamNamesDialect` and `StripDialect` of
`internal/connectors/bind.go`.  Each walks the runes of a template with one
position `i` and a switch on the rune found there.

A position `i` is modelled by the runes from it on, `runes[i:]`, so a helper
that returns a position returns the text it leaves, and `i+1 < L && runes[i+1]`
is a match on the second rune.  `upTo s after` is the slice `runes[i:end]`.
A helper whose position `0` means "not closed" returns an option.

A Go `switch` does not fall through.  A case whose inner `if` fails leaves the
switch with `i` unchanged, and the loop goes round again from the same state.
So the scanners are bodies of `Machine.Pass`, and the functions run them with
`Machine.exec`, which is `none` when the loop hangs.
-/

namespace DDAG

/-- A Go string, as its runes. -/
abbrev Text := List Char

/-- A table keyed by strings, such as a Go `map[string]any`. -/
abbrev Table (α : Type*) := Text → Option α

namespace Connectors

open Machine (Pass)

/-- The dialects with rules of their own.  The binder knows no other strings,
and treats them all like the empty one that `Bind` passes. -/
inductive Dialect where
  | postgres
  | mysql
  | sqlserver
  | oracle
  | other
deriving DecidableEq, Repr

/-- `Dialect(s)` for a database type `s`. -/
def Dialect.ofText (s : Text) : Dialect :=
  if s = "postgres".toList then .postgres
  else if s = "mysql".toList then .mysql
  else if s = "sqlserver".toList then .sqlserver
  else if s = "oracle".toList then .oracle
  else .other

/-! ## Placeholders -/

/-- The text of the `n`-th positional placeholder. -/
abbrev Placeholder := Nat → Text

def placeholderDollar : Placeholder := fun n => '$' :: Nat.toDigits 10 n
def placeholderQuestion : Placeholder := fun _ => ['?']
def placeholderAtP : Placeholder := fun n => '@' :: 'p' :: Nat.toDigits 10 n
def placeholderColon : Placeholder := fun n => ':' :: Nat.toDigits 10 n

def placeholderForDialect : Dialect → Placeholder
  | .postgres => placeholderDollar
  | .mysql => placeholderQuestion
  | .sqlserver => placeholderAtP
  | .oracle => placeholderColon
  | .other => placeholderQuestion

/-! ## Runes and slices -/

def isIdentStart (r : Char) : Bool :=
  r == '_' || ('a' ≤ r && r ≤ 'z') || ('A' ≤ r && r ≤ 'Z')

def isIdentPart (r : Char) : Bool :=
  isIdentStart r || ('0' ≤ r && r ≤ '9')

/-- The slice from the position of `s` up to the position of `after`. -/
def upTo (s after : Text) : Text := s.take (s.length - after.length)

/-! ## Skipping quoted regions -/

/-- The loop of `skipDelimited`, from the rune after the opening one. -/
def skipDelimitedFrom (quote : Char) : Text → Text
  | [] => []
  | c :: rest =>
      if c = quote then
        match rest with
        | [] => []
        | c' :: rest' => if c' = quote then skipDelimitedFrom quote rest' else c' :: rest'
      else skipDelimitedFrom quote rest

def skipDelimited (quote : Char) (s : Text) : Text := skipDelimitedFrom quote s.tail

/-- The loop of `skipBracketIdentifier` is that of `skipDelimited`. -/
def skipBracketIdentifier (s : Text) : Text := skipDelimited ']' s

/-- The search of `dollarQuoteEnd` for the closing tag. -/
def findTag (tag : Text) : Text → Option Text
  | [] => none
  | c :: rest =>
      if tag.isPrefixOf (c :: rest) then some ((c :: rest).drop tag.length)
      else findTag tag rest

/-- The tag is the longest run of identifier runes and dollars after the
opening dollar.  It must not be empty and must end in a dollar. -/
def dollarQuoteEnd : Text → Option Text
  | '$' :: rest =>
      let tag := rest.takeWhile fun c => isIdentPart c || c == '$'
      if tag.getLast? = some '$' then findTag ('$' :: tag) (rest.drop tag.length) else none
  | _ => none

/-- The search of `oracleQuoteEnd` for the closing rune and its quote. -/
def findClose (close : Char) : Text → Option Text
  | c :: c' :: rest =>
      if c = close ∧ c' = '\'' then some rest else findClose close (c' :: rest)
  | _ => none

/-- The rune that closes an Oracle quote opened by `r`. -/
def closeOf (r : Char) : Char :=
  if r = '[' then ']' else if r = '(' then ')' else if r = '{' then '}'
  else if r = '<' then '>' else r

def oracleQuoteEnd : Text → Option Text
  | 'q' :: '\'' :: r :: rest => findClose (closeOf r) rest
  | _ => none

/-- The case `c == 'q' && i+2 < L && runes[i+1] == '\''`. -/
def opensOracleQuote : Text → Bool
  | 'q' :: '\'' :: _ :: _ => true
  | _ => false

/-- The literal loop, from the rune after the opening quote. -/
def skipLiteral : Text → Text
  | [] => []
  | '\'' :: '\'' :: rest => skipLiteral rest
  | '\'' :: rest => rest
  | _ :: rest => skipLiteral rest

/-- The block comment loop, from the rune after the opening pair. -/
def skipBlock : Text → Text
  | [] => []
  | '*' :: '/' :: rest => rest
  | _ :: rest => skipBlock rest

/-- A line comment runs up to the line break and leaves it. -/
def skipLine (s : Text) : Text := s.dropWhile (· != '\n')

/-! ## Copying quoted regions

The same loops as above, as the binder writes them: each gives the runes it
appends to the output and the text it leaves. -/

def copyDelimitedFrom (quote : Char) : Text → Text × Text
  | [] => ([], [])
  | c :: rest =>
      if c = quote then
        match rest with
        | [] => ([c], [])
        | c' :: rest' =>
            if c' = quote then
              let p := copyDelimitedFrom quote rest'
              (c :: quote :: p.1, p.2)
            else ([c], c' :: rest')
      else
        let p := copyDelimitedFrom quote rest
        (c :: p.1, p.2)

def copyDelimited (quote : Char) : Text → Text × Text
  | [] => ([], [])
  | c :: rest =>
      let p := copyDelimitedFrom quote rest
      (c :: p.1, p.2)

/-- The loop of `copyBracketIdentifier` is that of `copyDelimited`. -/
def copyBracketIdentifier (s : Text) : Text × Text := copyDelimited ']' s

def copyLiteral : Text → Text × Text
  | [] => ([], [])
  | '\'' :: '\'' :: rest =>
      let p := copyLiteral rest
      ('\'' :: '\'' :: p.1, p.2)
  | '\'' :: rest => (['\''], rest)
  | c :: rest =>
      let p := copyLiteral rest
      (c :: p.1, p.2)

def copyBlock : Text → Text × Text
  | [] => ([], [])
  | '*' :: '/' :: rest => (['*', '/'], rest)
  | c :: rest =>
      let p := copyBlock rest
      (c :: p.1, p.2)

/-- The binder's `#` comment takes the line break with it. -/
def copyHash : Text → Text × Text
  | [] => ([], [])
  | c :: rest =>
      if c = '\n' then ([c], rest)
      else
        let p := copyHash rest
        (c :: p.1, p.2)

/-! ## The binder -/

/-- What the binder has built: the output, the arguments and their number. -/
structure Bound (α : Type*) where
  out : Text := []
  args : List α := []
  n : Nat := 0

def Bound.copy {α : Type*} (b : Bound α) (text : Text) : Bound α := { b with out := b.out ++ text }

/-- Append the next placeholder to the output and its value to the arguments. -/
def Bound.bind {α : Type*} (b : Bound α) (ph : Placeholder) (v : α) : Bound α :=
  { out := b.out ++ ph (b.n + 1), args := b.args ++ [v], n := b.n + 1 }

def missingValue (name : Text) : Text := "missing value for parameter :".toList ++ name

/-- The SQL text and arguments of a binding, or its error. -/
abbrev Binding (α : Type*) := Except Text (Text × List α)

section Binder

variable {α : Type*} (params : Table α) (ph : Placeholder) (d : Dialect)

/-- One pass of the loop of `bindDialect`. -/
def bindDialectBody : Text × Bound α → Pass (Text × Bound α) (Binding α)
  | ([], b) => .leave (.ok (b.out, b.args))
  | (c :: rest, b) =>
      let s := c :: rest
      if d = .postgres ∧ c = '$' then
        match dollarQuoteEnd s with
        | some after => .again (after, b.copy (upTo s after))
        | none => .again (s, b)
      else if d = .mysql ∧ c = '`' then
        let p := copyDelimited '`' s
        .again (p.2, b.copy p.1)
      else if d = .sqlserver ∧ c = '[' then
        let p := copyBracketIdentifier s
        .again (p.2, b.copy p.1)
      else if c = '"' then
        let p := copyDelimited '"' s
        .again (p.2, b.copy p.1)
      else if d = .mysql ∧ c = '#' then
        let p := copyHash s
        .again (p.2, b.copy p.1)
      else if d = .oracle ∧ opensOracleQuote s then
        match oracleQuoteEnd s with
        | some after => .again (after, b.copy (upTo s after))
        | none => .again (s, b)
      else if c = '\'' then
        let p := copyLiteral rest
        .again (p.2, b.copy (c :: p.1))
      else if c = '-' ∧ rest.head? = some '-' then
        .again (skipLine s, b.copy (s.takeWhile (· != '\n')))
      else if c = '/' ∧ rest.head? = some '*' then
        let p := copyBlock rest.tail
        .again (p.2, b.copy ('/' :: '*' :: p.1))
      else if c = ':' ∧ rest.head? = some ':' then
        .again (rest.tail, b.copy [':', ':'])
      else if c = ':' ∧ rest.head?.any isIdentStart then
        let name := rest.takeWhile isIdentPart
        match params name with
        | none => .leave (.error (missingValue name))
        | some v => .again (rest.dropWhile isIdentPart, b.bind ph v)
      else .again (rest, b.copy [c])

/-- `bindDialect`, `none` when its loop hangs. -/
def bindDialect (template : Text) : Option (Binding α) :=
  Machine.exec (bindDialectBody params ph d) (fun p => p.1.length) (template, {})

end Binder

/-- `Bind` runs the binder with the empty dialect. -/
def bind {α : Type*} (template : Text) (params : Table α) (ph : Placeholder) :
    Option (Binding α) :=
  bindDialect params ph .other template

/-- `BindDialect`. -/
def bindForDialect {α : Type*} (template : Text) (params : Table α) (d : Dialect) :
    Option (Binding α) :=
  bindDialect params (placeholderForDialect d) d template

/-! ## The parameter names of a template -/

/-- Append a name that is not there yet.  `seen` of the source holds exactly
the names of `order`. -/
def addName (order : List Text) (name : Text) : List Text :=
  if name ∈ order then order else order ++ [name]

/-- One pass of the loop of `ExtractParamNamesDialect`. -/
def extractBody (d : Dialect) : Text × List Text → Pass (Text × List Text) (List Text)
  | ([], order) => .leave order
  | (c :: rest, order) =>
      let s := c :: rest
      if c = '$' then
        match dollarQuoteEnd s with
        | some after => .again (after, order)
        | none => .again (s, order)
      else if d = .mysql ∧ c = '`' then .again (skipDelimited '`' s, order)
      else if d = .sqlserver ∧ c = '[' then .again (skipBracketIdentifier s, order)
      else if c = '"' then .again (skipDelimited '"' s, order)
      else if d = .mysql ∧ c = '#' then .again (skipLine s, order)
      else if d = .oracle ∧ opensOracleQuote s then
        match oracleQuoteEnd s with
        | some after => .again (after, order)
        | none => .again (s, order)
      else if c = '\'' then .again (skipLiteral rest, order)
      else if c = '-' ∧ rest.head? = some '-' then .again (skipLine s, order)
      else if c = '/' ∧ rest.head? = some '*' then .again (skipBlock rest.tail, order)
      else if c = ':' ∧ rest.head? = some ':' then .again (rest.tail, order)
      else if c = ':' ∧ rest.head?.any isIdentStart then
        .again (rest.dropWhile isIdentPart, addName order (rest.takeWhile isIdentPart))
      else .again (rest, order)

/-- `ExtractParamNamesDialect`, `none` when its loop hangs. -/
def extractParamNamesDialect (template : Text) (d : Dialect) : Option (List Text) :=
  Machine.exec (extractBody d) (fun p => p.1.length) (template, [])

/-! ## The code text of a template -/

/-- One pass of the loop of `StripDialect`. -/
def stripBody (d : Dialect) : Text × Text → Pass (Text × Text) Text
  | ([], out) => .leave out
  | (c :: rest, out) =>
      let s := c :: rest
      if c = '$' then
        match dollarQuoteEnd s with
        | some after => .again (after, out)
        | none => .again (s, out)
      else if d = .mysql ∧ c = '`' then .again (skipDelimited '`' s, out)
      else if d = .sqlserver ∧ c = '[' then .again (skipBracketIdentifier s, out)
      else if c = '"' then .again (skipDelimited '"' s, out)
      else if d = .mysql ∧ c = '#' then .again (skipLine s, out)
      else if d = .oracle ∧ opensOracleQuote s then
        match oracleQuoteEnd s with
        | some after => .again (after, out)
        | none => .again (s, out)
      else if c = '\'' then .again (skipLiteral rest, out)
      else if c = '-' ∧ rest.head? = some '-' then .again (skipLine s, out)
      else if c = '/' ∧ rest.head? = some '*' then .again (skipBlock rest.tail, out)
      else .again (rest, out ++ [c])

/-- `StripDialect`, `none` when its loop hangs. -/
def stripDialect (template : Text) (d : Dialect) : Option Text :=
  Machine.exec (stripBody d) (fun p => p.1.length) (template, [])

end Connectors

end DDAG
