import FileSpec.Toml.Scalar

/-!
TOML documents.

A document is a sequence of statements, each of which defines a value or opens a table. What
is defined is kept in a table of tables, together with the keys of tables that cannot be
opened again and the keys of values that cannot be extended.

Values stand within values at any depth: the fuel of `Toml.readValue` lasts for the whole text. A
limit that an interpreter sets on nested calls is not modelled.
-/

set_option autoImplicit false

namespace FileSpec

namespace Table

/--
Change the table that a key leads to, creating the tables on the way. With `throughLists`, a
list of tables leads to its last table. It fails where the key leads to anything else.
-/
def updateAt? (throughLists : Bool) (change : Table → Option Table) :
    List String → Table → Option Table
  | [], table => change table
  | name :: names, table =>
      match table.get? name with
      | none => do
          let inner ← updateAt? throughLists change names []
          some (table.put name (.table inner))
      | some (.table inner) => do
          let changed ← updateAt? throughLists change names inner
          some (table.put name (.table changed))
      | some (.list items) =>
          match throughLists, items.getLast? with
          | true, some (.table inner) => do
              let changed ← updateAt? throughLists change names inner
              some (table.put name (.list (items.dropLast ++ [.table changed])))
          | _, _ => none
      | some _ => none

def add? (name : String) (value : Value) (table : Table) : Option Table :=
  if (table.get? name).isSome then none else some (table ++ [(name, value)])

def addToList? (name : String) (table : Table) : Option Table :=
  match table.get? name with
  | none => some (table ++ [(name, .list [.table []])])
  | some (.list items) => some (table.put name (.list (items ++ [.table []])))
  | some _ => none

end Table

namespace Toml

open FileSpec.Text

abbrev Route := List String

def isExtensible : Value → Bool
  | .table _ => true
  | .list _ => true
  | _ => false

def leadsInto (places : List Route) (route : Route) : Bool :=
  places.any (·.isPrefixOf route)

def orMalformed {Result : Type} : Option Result → Except Defect Result
  | some result => .ok result
  | none => .error .malformed

def readPair (readValue : List Char → Except Defect (Reading Value)) (text : List Char) :
    Except Defect (Reading (Key × Value)) := do
  let (key, afterKey) ← readKey text
  match afterKey with
  | '=' :: rest =>
      let (value, left) ← readValue (skipSpace rest)
      .ok ((key, value), left)
  | _ => .error .malformed

def readItems (readValue : List Char → Except Defect (Reading Value)) :
    (fuel : Nat) → List Char → Except Defect (Reading (List Value))
  | 0, _ => .error .malformed
  | fuel + 1, text => do
      match ← skipLines text.length text with
      | ']' :: rest => .ok ([], rest)
      | start =>
          let (item, afterItem) ← readValue start
          match ← skipLines afterItem.length afterItem with
          | ']' :: rest => .ok ([item], rest)
          | ',' :: rest =>
              let (others, left) ← readItems readValue fuel rest
              .ok (item :: others, left)
          | _ => .error .malformed

def readFields (readValue : List Char → Except Defect (Reading Value)) :
    (fuel : Nat) → (closed : List Route) → Table → List Char → Except Defect (Reading Table)
  | 0, _, _, _ => .error .malformed
  | fuel + 1, closed, table, text => do
      let ((key, value), afterPair) ← readPair readValue text
      if leadsInto closed key.toList then .error .malformed
      else
        let extended ← orMalformed
          (table.updateAt? false (Table.add? key.name value) key.parents)
        match skipSpace afterPair with
        | '\x7d' :: rest => .ok (extended, rest)
        | ',' :: rest =>
            readFields readValue fuel
              (if isExtensible value then key.toList :: closed else closed) extended
              (skipSpace rest)
        | _ => .error .malformed

/-- A value of any kind; `fuel` bounds how deep values stand within values. -/
def readValue : (fuel : Nat) → List Char → Except Defect (Reading Value)
  | 0, _ => .error .malformed
  | fuel + 1, text =>
      match readString? text with
      | some reading => do
          let (content, left) ← reading
          .ok (.text (String.ofList content), left)
      | none =>
          match text with
          | 't' :: 'r' :: 'u' :: 'e' :: rest => .ok (.boolean true, rest)
          | 'f' :: 'a' :: 'l' :: 's' :: 'e' :: rest => .ok (.boolean false, rest)
          | '[' :: rest => do
              let (items, left) ← readItems (readValue fuel) (rest.length + 1) rest
              .ok (.list items, left)
          | '\x7b' :: rest =>
              match skipSpace rest with
              | '\x7d' :: left => .ok (.table [], left)
              | start => do
                  let (fields, left) ← readFields (readValue fuel) (start.length + 1) [] [] start
                  .ok (.table fields, left)
          | _ => readScalar text

structure Document where
  content : Table
  /-- Tables that cannot be opened by a header. -/
  opened : List Route
  /-- Tables that are as good as opened once the next header comes. -/
  pending : List Route
  /-- Arrays and inline tables, which cannot be extended. -/
  closed : List Route
  header : Route

namespace Document

def blank : Document :=
  ⟨[], [], [], [], []⟩

def openTable (document : Document) (route : Route) : Except Defect Document := do
  if document.opened.contains route || leadsInto document.closed route then .error .malformed
  else
    let content ← orMalformed (document.content.updateAt? true some route)
    .ok { document with content, opened := route :: document.opened, header := route }

/-- Add a table to a list of tables, which makes a new start for everything below it. -/
def openListItem (document : Document) (key : Key) : Except Defect Document := do
  let route := key.toList
  if leadsInto document.closed route then .error .malformed
  else
    let content ← orMalformed
      (document.content.updateAt? true (Table.addToList? key.name) key.parents)
    let elsewhere := fun place => !route.isPrefixOf place
    .ok { document with
      content
      opened := route :: document.opened.filter elsewhere
      closed := document.closed.filter elsewhere
      header := route }

def define (document : Document) (key : Key) (value : Value) : Except Defect Document := do
  let parents := key.parents
  let between := (List.range parents.length).map fun count =>
    document.header ++ parents.take (count + 1)
  if between.any document.opened.contains
      || leadsInto document.closed (document.header ++ parents) then .error .malformed
  else
    let content ← orMalformed (document.content.updateAt? true
      (Table.add? key.name value) (document.header ++ parents))
    .ok { document with
      content
      pending := between ++ document.pending
      closed :=
        if isExtensible value then (document.header ++ key.toList) :: document.closed
        else document.closed }

def settle (document : Document) : Document :=
  { document with opened := document.pending ++ document.opened, pending := [] }

def readStatement (document : Document) (text : List Char) :
    Except Defect (Document × List Char) :=
  match text with
  | '[' :: '[' :: rest => do
      let (key, afterKey) ← readKey (skipSpace rest)
      let opened ← document.settle.openListItem key
      match afterKey with
      | ']' :: ']' :: left => .ok (opened, left)
      | _ => .error .malformed
  | '[' :: rest => do
      let (key, afterKey) ← readKey (skipSpace rest)
      let opened ← document.settle.openTable key.toList
      match afterKey with
      | ']' :: left => .ok (opened, left)
      | _ => .error .malformed
  | _ => do
      let ((key, value), left) ← readPair (readValue (text.length + 1)) text
      .ok (← document.define key value, left)

/-- Carry out all statements of a text; `fuel` bounds the number of lines. -/
def readStatements : (fuel : Nat) → Document → List Char → Except Defect Document
  | 0, document, _ => .ok document
  | fuel + 1, document, text => do
      let start := skipSpace text
      let (read, afterStatement) ←
        match start with
        | [] => pure (document, [])
        | '\n' :: _ => pure (document, start)
        | '#' :: _ => pure (document, start)
        | _ => document.readStatement start
      match ← skipComment (skipSpace afterStatement) with
      | [] => .ok read
      | '\n' :: rest => readStatements fuel read rest
      | _ => .error .malformed

end Document

def unifyLineEnds : List Char → List Char
  | '\r' :: '\n' :: rest => '\n' :: unifyLineEnds rest
  | character :: rest => character :: unifyLineEnds rest
  | [] => []

def parse (text : List Char) : Except Defect Table := do
  let lines := unifyLineEnds text
  let document ← Document.readStatements (lines.length + 1) .blank lines
  .ok document.content

end Toml

end FileSpec
