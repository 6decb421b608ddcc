import Apidoc.Failure
import Apidoc.Model.Element

/-!
# `Apidoc.Sample.Cache`: the listings that references ask for

The cache maps the key of a reference to one listing. Of several listings for a key, the one with the
smallest origin stays, and the earliest among equal origins, so that the order in which sources are
visited does not show. A sealed cache takes no more listings.
-/

set_option autoImplicit false

namespace Apidoc.Sample

/-- Where a listing comes from. -/
structure Origin where
  /-- The text of the path. -/
  file : String
  line : Int
  deriving DecidableEq, Repr

namespace Origin

/-- The order of origins: by the text of the path, then by the line. -/
def le (a b : Origin) : Bool := a.file < b.file || (a.file = b.file && a.line ≤ b.line)

end Origin

/-- A listing and where it comes from. -/
structure Excerpt where
  origin : Origin
  code : String
  deriving DecidableEq, Repr

/-- Listings by key, each key once, in the order in which the keys came. -/
structure Cache where
  entries : List (String × Excerpt)
  isSealed : Bool
  deriving Repr

namespace Cache

/-- The cache of nothing. -/
def empty : Cache := ⟨[], false⟩

/-- The listing for a key with its origin. -/
def find? (c : Cache) (key : String) : Option Excerpt :=
  (c.entries.find? fun e => e.1 = key).map (·.2)

/-- The listing for a key. -/
def get? (c : Cache) (key : String) : Option String := (c.find? key).map (·.code)

/-- Whether there is a listing for a key. -/
def contains (c : Cache) (key : String) : Bool := (c.find? key).isSome

/-- The number of keys. -/
def size (c : Cache) : Nat := c.entries.length

/-- The keys in order. -/
def keys (c : Cache) : List String := (c.entries.map (·.1)).mergeSort fun a b => decide (a ≤ b)

/-- The entries with the listing for a key set. -/
def setEntry (key : String) (s : Excerpt) : List (String × Excerpt) → List (String × Excerpt)
  | [] => [(key, s)]
  | e :: rest => if e.1 = key then (key, s) :: rest else e :: setEntry key s rest

/-- Offers a listing for a key. It is refused if the cache is sealed, and passed over if the key has a
listing whose origin is not larger. -/
def put (c : Cache) (key : String) (s : Excerpt) : Except Failure Cache :=
  if c.isSealed then
    .error (.build "sample pass" "sample cache is read-only after the sample pass")
  else
    match c.find? key with
    | some kept =>
      if kept.origin.le s.origin then .ok c else .ok { c with entries := setEntry key s c.entries }
    | none => .ok { c with entries := setEntry key s c.entries }

/-- The same cache, closed for further listings. -/
def close (c : Cache) : Cache := { c with isSealed := true }

/-- The listings for a member of a type: by its signature, then by its name. A listing that both keys
have is there once. -/
def samplesFor (c : Cache) (type name signature : String) : List String :=
  ([type ++ "#" ++ signature, type ++ "#" ++ name].filterMap c.get?).eraseDups

end Cache

end Apidoc.Sample
