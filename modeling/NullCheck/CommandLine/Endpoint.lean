/-!
# Endpoints

Traces are sent to an absolute URL. Of a URL only its form is checked here: a scheme, and behind the schemes of the
web a host and perhaps the number of a service on it.
-/

namespace NullCheck

namespace CommandLine

/-- Characters that cut off the part of a URL that names the server. -/
def endsAuthority (c : Char) : Bool := c = '/' || c = '\\' || c = '?' || c = '#'

def isForbiddenInHost (c : Char) : Bool :=
  c.toNat ≤ 0x20 || c.toNat = 0x7F || c ∈ ['<', '>', '^', '|', '%', '[', ']', '@', ':', '#', '/', '?', '\\']

/-- Whether a text is the number of a service, or nothing. -/
def isServiceNumber (cs : List Char) : Bool :=
  cs.all Char.isDigit && cs.foldl (fun n c => 10 * n + (c.toNat - '0'.toNat)) 0 < UInt16.size

/-- Whether a text is a host, perhaps with the number of a service. Addresses in brackets are taken as they are. -/
def isAuthority (cs : List Char) : Bool :=
  match cs with
  | '[' :: cs =>
    match cs.dropWhile (· ≠ ']') with
    | [_] => true
    | _ :: ':' :: number => isServiceNumber number
    | _ => false
  | cs =>
    let host := cs.takeWhile (· ≠ ':')
    !host.isEmpty && !host.any isForbiddenInHost && isServiceNumber ((cs.dropWhile (· ≠ ':')).drop 1)

/-- The part of a text behind its last `@`: what is in front of it names a user. -/
def withoutUser (cs : List Char) : List Char := (cs.reverse.takeWhile (· ≠ '@')).reverse

def webSchemes : List String := ["http", "https", "ws", "wss", "ftp"]

/-- Whether a text is an absolute URL. Blanks and controls around it do not count. -/
def isEndpoint (text : String) : Bool :=
  let isSpace (c : Char) : Bool := c.toNat ≤ 0x20
  let cs := ((text.toList.dropWhile isSpace).reverse.dropWhile isSpace).reverse
  let scheme := cs.takeWhile (· ≠ ':')
  match scheme, cs.dropWhile (· ≠ ':') with
  | first :: others, _ :: rest =>
    first.isAlpha && others.all (fun c => c.isAlphanum || c = '+' || c = '-' || c = '.') &&
      (String.ofList (scheme.map Char.toLower) ∉ webSchemes ||
        isAuthority (withoutUser ((rest.dropWhile fun c => c = '/' || c = '\\').takeWhile fun c => !endsAuthority c)))
  | _, _ => false

end CommandLine

end NullCheck
