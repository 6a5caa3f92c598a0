import IndexedSearch.Catalog.Declaration
import IndexedSearch.Request.Basic
import IndexedSearch.UsageError

/-!
# Errors of a search

A search fails for a mistake in the catalog, a mistake of the caller, a read that the store refused,
or an item that does not fit the schema.
-/

namespace IndexedSearch

/-- A read that failed: the request as it was planned, and what the store said. -/
structure ReadError where
  request : Request
  cause : String

namespace ReadError

/-- The table that was read. -/
def table (error : ReadError) : String := error.request.table

/-- How the table was read. -/
def operation (error : ReadError) : Operation := error.request.operation

/-- The wording of an error. -/
def message (error : ReadError) : String :=
  error.operation.name ++ " on table '" ++ error.table ++ "' failed: " ++ error.cause ++
    " (request: " ++ error.request.text ++ ")"

end ReadError

/-- What is wrong with an item. -/
inductive DecodeError where
  | missingAttribute (property : String)
  | typeMismatch (property : String) (expected : AttributeType) (actual : Wire.Tag)
deriving DecidableEq

/-- The wording of an error. -/
def DecodeError.message : DecodeError → String
  | missingAttribute property => "missing required attribute: " ++ property
  | typeMismatch property expected actual =>
    "type mismatch for attribute '" ++ property ++ "': expected " ++ expected.name ++
      ", got " ++ actual.name

/-- Why a search failed. -/
inductive SearchError where
  | schema (error : SchemaError)
  | usage (error : UsageError)
  | read (error : ReadError)
  | decode (error : DecodeError)

/-- The wording of an error. -/
def SearchError.message : SearchError → String
  | schema error => error.message
  | usage error => error.message
  | read error => error.message
  | decode error => error.message

end IndexedSearch
