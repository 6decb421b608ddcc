import Apidoc.Failure
import Apidoc.Text.Letter

/-!
# `Apidoc.Site.Address`: the host in an address

An address is `scheme://authority/path?query#fragment`, and every part may be missing. The host is the
authority without the user in front of the last `@` and without the port. Blanks and control
characters in front of an address do not count, and neither do tabs and line breaks inside it.
-/

set_option autoImplicit false

namespace Apidoc.Site.Address

open Apidoc.Text

/-- Space and the control characters before it. -/
def isControlOrSpace (c : Char) : Bool := c.toNat ≤ 32

/-- The address without characters that do not count. -/
def clean (address : List Char) : List Char :=
  (address.dropWhile isControlOrSpace).filter fun c => c ≠ '\t' && c ≠ '\r' && c ≠ '\n'

/-- A character of a scheme. -/
def isSchemeChar (c : Char) : Bool := c.isAlphanum || c = '+' || c = '-' || c = '.'

/-- The address after its scheme, if it starts with one. A scheme starts with an ASCII letter. -/
def dropScheme (address : List Char) : List Char :=
  match cutAt ':' address with
  | (scheme, some rest) =>
    if scheme.head?.any Char.isAlpha && scheme.all isSchemeChar then rest else address
  | (_, none) => address

/-- What stands between two slashes and the first delimiter after them. -/
def authority? (address : List Char) : Option (List Char) :=
  match dropScheme (clean address) with
  | '/' :: '/' :: rest => some (rest.takeWhile fun c => c ≠ '/' && c ≠ '?' && c ≠ '#')
  | _ => none

/-- The characters that a reader may take for a delimiter, because their compatibility form holds
one. -/
def disguises : List Char :=
  ['\u2047', '\u2048', '\u2049', '\u2100', '\u2101', '\u2105', '\u2106', '\u2a74', '\ufe13', '\ufe16',
    '\ufe55', '\ufe56', '\ufe5f', '\ufe6b', '\uff03', '\uff0f', '\uff1a', '\uff1f', '\uff20']

/-- The host of an authority: what stands between brackets, or before the first colon. -/
def hostOf (authority : List Char) : List Char :=
  let server := afterLast '@' authority
  match cutAt '[' server with
  | (_, some inner) => (cutAt ']' inner).1
  | (_, none) => (cutAt ':' server).1

/-- The host of an address in small letters. An authority with one kind of bracket alone, or with a
disguised delimiter, is refused. -/
def host? (address : List Char) : Except Failure (Option (List Char)) :=
  match authority? address with
  | none => .ok none
  | some authority =>
    if ('[' ∈ authority) ≠ (']' ∈ authority) then .error .address
    else if authority.any fun c => c ∈ disguises then
      .error (.disguisedAddress (String.ofList authority))
    else
      let host := hostOf authority
      .ok (if host = [] then none else some (lowercase host))

end Apidoc.Site.Address
