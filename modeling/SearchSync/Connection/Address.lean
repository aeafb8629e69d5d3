import SearchSync.Decimal
import SearchSync.Text
import SearchSync.Trigger.Basic

/-!
# Addresses of databases

In messages the password of an address is hidden. MySQL addresses are URLs: the scheme, two slashes,
possibly a user, a host, and possibly the number of its socket, a path and parameters, each of which
must be known and hold a value of its kind. Reading follows the rules for URLs whose scheme has no
rules of its own.
-/

namespace SearchSync.Parameter

inductive Kind
  | count (bound : Nat)
  | flag
  | text
  | compression
  deriving DecidableEq, Repr

def known : List (String × Kind) :=
  let word := UInt64.size
  [("pool_min", .count word), ("pool_max", .count word), ("inactive_connection_ttl", .count word),
    ("ttl_check_interval", .count word), ("conn_ttl", .count word), ("abs_conn_ttl", .count word),
    ("abs_conn_ttl_jitter", .count word), ("tcp_keepalive", .count UInt32.size),
    ("max_allowed_packet", .count word), ("wait_timeout", .count word),
    ("stmt_cache_size", .count word), ("enable_cleartext_plugin", .flag),
    ("reset_connection", .flag), ("tcp_nodelay", .flag), ("prefer_socket", .flag),
    ("secure_auth", .flag), ("client_found_rows", .flag), ("require_ssl", .flag),
    ("verify_ca", .flag), ("verify_identity", .flag), ("socket", .text),
    ("compression", .compression)]

def count? (s : String) : Option Nat :=
  match s.toList with
  | '+' :: digits => Decimal.value? digits
  | digits => Decimal.value? digits

def Kind.admits (k : Kind) (s : String) : Bool :=
  match k with
  | .count bound => (count? s).any (· < bound)
  | .flag => s = "true" || s = "false"
  | .text => true
  | .compression =>
    ["fast", "on", "true", "best"].contains s || (s.length = 1 && s.toList.all Char.isDigit)

/-- The text behind plus signs and percent signs. Only ASCII characters are told apart. -/
def decode : List Char → List Char
  | [] => []
  | '+' :: rest => ' ' :: decode rest
  | '%' :: h :: l :: rest =>
    match Text.hexDigit? h, Text.hexDigit? l with
    | some high, some low => Char.ofNat (high * 16 + low) :: decode rest
    | _, _ => '%' :: decode (h :: l :: rest)
  | c :: rest => c :: decode rest

def ofQuery (query : List Char) : List (String × String) :=
  ((query.splitOn '&').filter (!·.isEmpty)).map fun p =>
    let (name, value) := p.span (· ≠ '=')
    (String.ofList (decode name), String.ofList (decode (value.drop 1)))

def poolBound (ps : List (String × String)) (name : String) (usual : Nat) : Nat :=
  ((ps.reverse.lookup name).bind count?).getD usual

def areValid (ps : List (String × String)) : Bool :=
  ps.all (fun p => (known.lookup p.1).any (·.admits p.2)) &&
    poolBound ps "pool_min" 10 ≤ poolBound ps "pool_max" 100

end SearchSync.Parameter

namespace SearchSync.Url

def clean (cs : List Char) : List Char :=
  let blank (c : Char) : Bool := c ≤ ' '
  let trimmed := ((cs.dropWhile blank).reverse.dropWhile blank).reverse
  trimmed.filter fun c => c ≠ '\t' && c ≠ '\n' && c ≠ '\r'

def scheme? (cs : List Char) : Option (List Char × List Char) :=
  let name := cs.takeWhile fun c => c.isAlphanum || c = '+' || c = '-' || c = '.'
  match cs.drop name.length with
  | ':' :: rest => if name.head?.any Char.isAlpha then some (name.map Char.toLower, rest) else none
  | _ => none

def endsAuthority (c : Char) : Bool := c = '/' || c = '?' || c = '#'

def dropUser (authority : List Char) : List Char :=
  (authority.reverse.takeWhile (· ≠ '@')).reverse

/-- The host and what follows it, from a colon outside of square brackets on. -/
def splitHost (inBrackets : Bool) : List Char → List Char × List Char
  | [] => ([], [])
  | c :: cs =>
    if c = ':' && !inBrackets then ([], c :: cs)
    else
      let (host, rest) := splitHost (c = '[' || (inBrackets && c ≠ ']')) cs
      (c :: host, rest)

def isIpv4Part (cs : List Char) : Bool :=
  match Decimal.value? cs with
  | some n => n < 256 && (cs.length = 1 || cs.head? ≠ some '0')
  | none => false

def isIpv4 (cs : List Char) : Bool :=
  let parts := cs.splitOn '.'
  parts.length = 4 && parts.all isIpv4Part

def isIpv6Group (cs : List Char) : Bool :=
  1 ≤ cs.length && cs.length ≤ 4 &&
    cs.all fun c => c.isDigit || ('a' ≤ c && c ≤ 'f') || ('A' ≤ c && c ≤ 'F')

/-- The number of 16-bit groups in a list of groups, of which the last may be an IPv4 address. -/
def groupCount? : List (List Char) → Option Nat
  | [] => some 0
  | [g] => if isIpv6Group g then some 1 else if isIpv4 g then some 2 else none
  | g :: gs => if isIpv6Group g then (groupCount? gs).map (· + 1) else none

def splitGap? : List Char → Option (List Char × List Char)
  | ':' :: ':' :: rest => some ([], rest)
  | c :: rest => (splitGap? rest).map fun (before, behind) => (c :: before, behind)
  | [] => none

def ipv6Groups (cs : List Char) : List (List Char) := if cs.isEmpty then [] else cs.splitOn ':'

def isIpv6 (cs : List Char) : Bool :=
  match splitGap? cs with
  | none => groupCount? (ipv6Groups cs) = some 8
  | some (before, behind) =>
    (ipv6Groups before).all isIpv6Group &&
      match groupCount? (ipv6Groups behind) with
      | some n => (ipv6Groups before).length + n ≤ 7
      | none => false

def isForbidden (c : Char) : Bool :=
  [Char.ofNat 0, ' ', '<', '>', '@', '[', '\\', ']', '^', '|', ':'].contains c

def isHost (host : List Char) : Bool :=
  match host with
  | [] => false
  | '[' :: rest => rest.getLast? = some ']' && isIpv6 rest.dropLast
  | host => host.all fun c => !isForbidden c

/-- What may follow a host: nothing, or a colon and a number below `2 ^ 16`, which may be left out.
Reading stops at a backslash. -/
def isSocketNumber (cs : List Char) : Bool :=
  match cs with
  | [] => true
  | _ :: rest =>
    let number := rest.takeWhile (· ≠ '\\')
    number.isEmpty || (Decimal.value? number).any (· < UInt16.size)

def query (cs : List Char) : List Char := ((cs.takeWhile (· ≠ '#')).dropWhile (· ≠ '?')).drop 1

def isMysql (text : String) : Bool :=
  match scheme? (clean text.toList) with
  | some (['m', 'y', 's', 'q', 'l'], '/' :: '/' :: rest) =>
    let (host, socket) := splitHost false (dropUser (rest.takeWhile fun c => !endsAuthority c))
    isHost host && isSocketNumber socket && Parameter.areValid (Parameter.ofQuery (query rest))
  | _ => false

end SearchSync.Url

namespace SearchSync.Address

def containsText (word : List Char) : List Char → Bool
  | [] => word.isEmpty
  | c :: cs => word.isPrefixOf (c :: cs) || containsText word cs

def beforeLastColon? (cs : List Char) : Option (List Char) :=
  match cs.reverse.dropWhile (· ≠ ':') with
  | [] => none
  | _ :: before => some before.reverse

/-- The address with three stars in place of what stands between the first `@` and the last colon
before it, provided that a scheme stands before that colon. -/
def sanitize (address : String) : String :=
  let cs := address.toList
  let userInfo := cs.takeWhile (· ≠ '@')
  let host := cs.dropWhile (· ≠ '@')
  match host, beforeLastColon? userInfo with
  | _ :: _, some shown =>
    if containsText [':', '/', '/'] shown then
      String.ofList (shown ++ [':', '*', '*', '*'] ++ host)
    else address
  | _, _ => address

end SearchSync.Address

namespace SearchSync

inductive ConnectError
  | invalidAddress (address : String)
  | unreachable (dialect : Dialect) (address : String)
  deriving DecidableEq, Repr

namespace ConnectError

def productName : Dialect → String
  | .mysql => "MySQL"
  | .postgresql => "PostgreSQL"

def message : ConnectError → String
  | .invalidAddress address => "Invalid MySQL connection URI '" ++ address ++ "'"
  | .unreachable d address => "Failed to connect to " ++ productName d ++ " at '" ++ address ++ "'"

/-- The error for an address at which no database answers. Only MySQL addresses are looked at
before the attempt. -/
def ofAddress (d : Dialect) (address : String) : ConnectError :=
  match d with
  | .mysql =>
    if Url.isMysql address then .unreachable .mysql (Address.sanitize address)
    else .invalidAddress (Address.sanitize address)
  | .postgresql => .unreachable .postgresql (Address.sanitize address)

end ConnectError

end SearchSync
