import Apidoc.Text.Blank

/-!
# `Apidoc.External.Network`: what sites answer

A network is a script: each site has the answers that it will give to requests for its overview page,
and gives the last one again and again. Every request is noted. An address that no site has refuses the
connection.
-/

set_option autoImplicit false

namespace Apidoc.External

open Apidoc.Text

/-- The answer to one request. -/
inductive Answer where
  | response (status : Int) (body : String) (location : Option String)
  /-- The connection fails, with a reason. -/
  | failure (reason : String)
  /-- No answer ever comes. -/
  | silence
  deriving DecidableEq, Repr

/-- The page of a site that lists its names. -/
def overviewPage : String := "overview-tree.html"

/-- The sites with the answers to come, and the requests so far. -/
structure Network where
  sites : List (String × List Answer)
  requests : List String
  deriving Repr

namespace Network

/-- A network without sites. -/
def unreachable : Network := ⟨[], []⟩

/-- The answer where no site is. -/
def refused : Answer := .failure "connection refused"

/-- The answers that are left after one was taken. The last one is never taken away. -/
def remaining : List Answer → List Answer
  | _ :: next :: rest => next :: rest
  | answers => answers

/-- Takes the next answer of the site at an address. -/
def take (address : String) : List (String × List Answer) → Answer × List (String × List Answer)
  | [] => (refused, [])
  | site :: sites =>
    if site.1 ++ overviewPage = address then
      (site.2.headD refused, (site.1, remaining site.2) :: sites)
    else
      let (answer, rest) := take address sites
      (answer, site :: rest)

/-- Sends a request. -/
def request (n : Network) (address : String) : Answer × Network :=
  let (answer, sites) := take address n.sites
  (answer, ⟨sites, n.requests ++ [address]⟩)

/-! ### Redirects -/

/-- The status says to ask elsewhere. -/
def isRedirect (status : Int) : Bool := status ∈ [301, 302, 303, 307, 308]

/-- The scheme of an address with its colon, and the rest. -/
def cutScheme (address : List Char) : List Char × List Char :=
  match cutAt ':' address with
  | (scheme, some rest) =>
    if scheme.head?.any Char.isAlpha &&
        scheme.all fun c => c.isAlphanum || c = '+' || c = '-' || c = '.' then
      (scheme ++ [':'], rest)
    else ([], address)
  | (_, none) => ([], address)

/-- The authority with its two slashes, and the rest. -/
def cutAuthority (rest : List Char) : List Char × List Char :=
  match rest with
  | '/' :: '/' :: after =>
    let authority := after.takeWhile fun c => c ≠ '/' && c ≠ '?' && c ≠ '#'
    ('/' :: '/' :: authority, after.drop authority.length)
  | _ => ([], rest)

/-- The segments of a path with `.` and `..` resolved. `above` are the segments before, the last one
first. -/
def resolveDots (above : List (List Char)) : List (List Char) → List (List Char)
  | [] => above.reverse
  | [segment] =>
    if segment = ['.'] then (above.reverse) ++ [[]]
    else if segment = ['.', '.'] then (above.drop 1).reverse ++ [[]]
    else above.reverse ++ [segment]
  | segment :: rest =>
    if segment = ['.'] then resolveDots above rest
    else if segment = ['.', '.'] then resolveDots (above.drop 1) rest
    else resolveDots (segment :: above) rest

/-- The address that a location means at another address. -/
def follow (address location : String) : String :=
  let (scheme, rest) := cutScheme address.toList
  let (authority, path) := cutAuthority rest
  let (ownScheme, target) := cutScheme location.toList
  if ownScheme ≠ [] then location
  else if (cutAuthority target).1 ≠ [] then String.ofList (scheme ++ target)
  else
    let folder := (path.takeWhile fun c => c ≠ '?' && c ≠ '#').reverse.dropWhile (· ≠ '/')
    let whole := if target.head? = some '/' then target else folder.reverse ++ target
    let resolved := join ['/'] (resolveDots [] (splitOn (· = '/') (whole.drop 1)))
    String.ofList (scheme ++ authority ++ '/' :: resolved)

/-- What came of a request after all redirects. -/
inductive Outcome where
  | page (body : String)
  | badStatus (status : Int)
  | failed (reason : String)
  | unanswered
  deriving DecidableEq, Repr

/-- The largest number of redirects that are followed. -/
def redirectLimit : Nat := 20

/-- Sends a request and follows redirects. `limit` more requests may be sent. -/
def load (n : Network) (address : String) : Nat → Outcome × Network
  | 0 => (.failed "Exceeded maximum allowed redirects.", n)
  | limit + 1 =>
    match n.request address with
    | (.failure reason, n') => (.failed reason, n')
    | (.silence, n') => (.unanswered, n')
    | (.response status body location, n') =>
      match if isRedirect status then location else none with
      | some l => n'.load (follow address l) limit
      | none => (if status = 200 then .page body else .badStatus status, n')

end Network

end Apidoc.External
