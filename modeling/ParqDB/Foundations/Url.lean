import Mathlib.Data.List.Basic
import Mathlib.Data.List.DropRight

/-!
# URLs and URL references

The URL record, its text and the basic URL parser of the WHATWG standard, with or without
a base URL.  The states of the parser are functions on the remaining input; the pointer
never moves back further than to the start of a state, so none of them needs to carry
the whole input.

**What is a parameter.**  The hosts of special schemes (domains and IPv4 addresses) and
bracketed IPv6 addresses are read by a `HostParser`.  Everything else of the parser is
here: ignored code points, scheme detection, credentials, ports, percent-encoding, dot
segments, Windows drive letters, queries and fragments.
-/

namespace ParqDB.Foundations.Whatwg

/-- A sequence of code points. -/
abbrev Text := List Char

/-! ## The record -/

/-- Who serves a URL. -/
structure Authority where
  username : Text
  password : Text
  host : Text
  port : Option ℕ
deriving DecidableEq

/-- A list of segments, or the text of a URL that cannot be a base. -/
inductive Path
  | segments (list : List Text)
  | verbatim (text : Text)
deriving DecidableEq

/-- The record of a URL. -/
structure Url where
  scheme : Text
  authority : Option Authority
  path : Path
  query : Option Text
  fragment : Option Text
deriving DecidableEq

/-- Reads the hosts that are not plain text. -/
structure HostParser where
  /-- The host of a special scheme: a domain or an IPv4 address. -/
  domain : Text → Except String Text
  /-- The text between the brackets of an IPv6 address. -/
  ipv6 : Text → Except String Text

def file : Text := ['f', 'i', 'l', 'e']

/-- The schemes with rules of their own. -/
def isSpecial (scheme : Text) : Bool :=
  [['f', 't', 'p'], file, ['h', 't', 't', 'p'], ['h', 't', 't', 'p', 's'], ['w', 's'],
    ['w', 's', 's']].contains scheme

def defaultPort (scheme : Text) : Option ℕ :=
  if scheme = ['f', 't', 'p'] then some 21
  else if scheme = ['h', 't', 't', 'p'] || scheme = ['w', 's'] then some 80
  else if scheme = ['h', 't', 't', 'p', 's'] || scheme = ['w', 's', 's'] then some 443
  else none

/-! ## Percent-encoding -/

def hexDigit (value : ℕ) : Char := Char.ofNat (if value < 10 then 48 + value else 55 + value)

def percentEncodeByte (byte : UInt8) : Text :=
  ['%', hexDigit (byte.toNat / 16), hexDigit (byte.toNat % 16)]

/-- Writes the UTF-8 bytes of the code points of a set in hexadecimal. -/
def percentEncode (set : Char → Bool) (text : Text) : Text :=
  text.flatMap fun c => if set c then (String.utf8EncodeChar c).flatMap percentEncodeByte else [c]

def controlSet (c : Char) : Bool := c.toNat < 0x20 || 0x7E < c.toNat

def fragmentSet (c : Char) : Bool :=
  controlSet c || [0x20, 0x22, 0x3C, 0x3E, 0x60].contains c.toNat

def querySet (c : Char) : Bool :=
  controlSet c || [0x20, 0x22, 0x23, 0x3C, 0x3E].contains c.toNat

def specialQuerySet (c : Char) : Bool := querySet c || c.toNat == 0x27

def pathSet (c : Char) : Bool :=
  querySet c || [0x3F, 0x5E, 0x60, 0x7B, 0x7D].contains c.toNat

def userinfoSet (c : Char) : Bool :=
  pathSet c || ['/', ':', ';', '=', '@', '[', '\\', ']', '|'].contains c

/-! ## Ignored code points and the scheme -/

/-- A control code point or a space: ignored at both ends of the input. -/
def isControlOrSpace (c : Char) : Bool := c.toNat ≤ 0x20

/-- Ignored everywhere in the input. -/
def isTabOrNewline (c : Char) : Bool := ['\t', '\n', '\r'].contains c

/-- The input without the code points that the parser ignores. -/
def clean (input : Text) : Text :=
  ((input.dropWhile isControlOrSpace).rdropWhile isControlOrSpace).filter (!isTabOrNewline ·)

def isSchemeChar (c : Char) : Bool := c.isAlphanum || c = '+' || c = '-' || c = '.'

/-- The scheme that the input starts with, and what follows its colon. -/
def scheme? (input : Text) : Option (Text × Text) :=
  match input with
  | [] => none
  | first :: _ =>
      if first.isAlpha then
        match input.dropWhile isSchemeChar with
        | ':' :: rest => some ((input.takeWhile isSchemeChar).map Char.toLower, rest)
        | _ => none
      else none

/-! ## Paths -/

def isSlash (special : Bool) (c : Char) : Bool := c = '/' || special && c = '\\'

def isSingleDot (segment : Text) : Bool :=
  [['.'], ['%', '2', 'e']].contains (segment.map Char.toLower)

def isDoubleDot (segment : Text) : Bool :=
  [['.', '.'], ['.', '%', '2', 'e'], ['%', '2', 'e', '.'], ['%', '2', 'e', '%', '2', 'e']].contains
    (segment.map Char.toLower)

def isDriveLetter : Text → Bool
  | [letter, mark] => letter.isAlpha && (mark = ':' || mark = '|')
  | _ => false

def isNormalizedDriveLetter : Text → Bool
  | [letter, mark] => letter.isAlpha && mark = ':'
  | _ => false

def startsWithDriveLetter : Text → Bool
  | [letter, mark] => isDriveLetter [letter, mark]
  | letter :: mark :: next :: _ =>
      isDriveLetter [letter, mark] && ['/', '\\', '?', '#'].contains next
  | _ => false

/-- Removes the last segment, but never the drive of a `file` URL. -/
def shorten (isFile : Bool) (path : List Text) : List Text :=
  match path with
  | [only] => if isFile && isNormalizedDriveLetter only then [only] else []
  | path => path.dropLast

/-- The segment as it is stored: a drive letter that starts a `file` path gets its colon. -/
def storedSegment (isFile : Bool) (path : List Text) (segment : Text) : Text :=
  if isFile && path.isEmpty && isDriveLetter segment then segment.take 1 ++ [':'] else segment

/-- Reads one segment of a path. -/
def pushSegment (isFile : Bool) (path : List Text) (segment : Text) : List Text :=
  if isDoubleDot segment then shorten isFile path
  else if isSingleDot segment then path
  else path ++ [storedSegment isFile path segment]

/-- Reads the segments of a path; a final dot segment names a directory. -/
def walk (isFile : Bool) (path : List Text) : List Text → List Text
  | [] => path
  | [last] =>
      if isDoubleDot last || isSingleDot last then pushSegment isFile path last ++ [[]]
      else pushSegment isFile path last
  | segment :: rest => walk isFile (pushSegment isFile path segment) rest

/-- The encoded segments of a path text. -/
def encodedSegments (special : Bool) (text : Text) : List Text :=
  (text.splitOnP (isSlash special)).map (percentEncode pathSet)

/-- Reads a path text onto the segments that are already there. -/
def readPath (scheme : Text) (path : List Text) (text : Text) : List Text :=
  walk (scheme = file) path (encodedSegments (isSpecial scheme) text)

namespace Url

variable (url : Url)

def pathText : Text :=
  match url.path with
  | .segments list => list.flatMap ('/' :: ·)
  | .verbatim text => text

def portText (port : Option ℕ) : Text :=
  match port with
  | none => []
  | some number => ':' :: Nat.toDigits 10 number

def authorityText (authority : Authority) : Text :=
  let password := if authority.password.isEmpty then [] else ':' :: authority.password
  let credentials :=
    if authority.username.isEmpty && authority.password.isEmpty then []
    else authority.username ++ password ++ ['@']
  credentials ++ authority.host ++ portText authority.port

/-- What stands between the colon of the scheme and the path.  A path that starts with an
empty segment would read as an authority; it is set off by a dot segment. -/
def authorityPart : Text :=
  match url.authority, url.path with
  | some authority, _ => '/' :: '/' :: authorityText authority
  | none, .segments ([] :: _ :: _) => ['/', '.']
  | none, _ => []

def tailText : Text :=
  let query := match url.query with
    | some text => '?' :: text
    | none => []
  let fragment := match url.fragment with
    | some text => '#' :: text
    | none => []
  query ++ fragment

/-- The text of a URL. -/
def text : Text := url.scheme ++ ':' :: (url.authorityPart ++ url.pathText ++ url.tailText)

/-- Replaces the path by the segments of a text; a path that is no list stays. -/
def setPath (text : Text) : Url :=
  match url.path with
  | .verbatim _ => url
  | .segments _ =>
      let body := match text with
        | first :: rest => if isSlash (isSpecial url.scheme) first then rest else text
        | [] => []
      { url with path := .segments (readPath url.scheme [] body) }

end Url

/-! ## The states of the parser -/

/-- Ends a path. -/
def isTail (c : Char) : Bool := c = '?' || c = '#'

/-- Reads the query and the fragment that follow a path. -/
def readTail (url : Url) (input : Text) : Url :=
  match input with
  | '?' :: rest =>
      let set := if isSpecial url.scheme then specialQuerySet else querySet
      let query := some (percentEncode set (rest.takeWhile (· ≠ '#')))
      match rest.dropWhile (· ≠ '#') with
      | _ :: fragment =>
          { url with query := query, fragment := some (percentEncode fragmentSet fragment) }
      | [] => { url with query := query }
  | '#' :: fragment => { url with fragment := some (percentEncode fragmentSet fragment) }
  | _ => url

/-- The path state, with the segments already read. -/
def pathState (url : Url) (path : List Text) (input : Text) : Url :=
  readTail
    { url with path := .segments (readPath url.scheme path (input.takeWhile (!isTail ·))) }
    (input.dropWhile (!isTail ·))

/-- The path start state, after an authority. -/
def pathStartState (url : Url) (input : Text) : Url :=
  if isSpecial url.scheme then
    match input with
    | first :: rest => pathState url [] (if isSlash true first then rest else input)
    | [] => pathState url [] []
  else
    match input with
    | '/' :: rest => pathState url [] rest
    | input => readTail url input

def isForbiddenHost (c : Char) : Bool :=
  [0x00, 0x09, 0x0A, 0x0D, 0x20].contains c.toNat ||
    ['#', '/', ':', '<', '>', '?', '@', '[', '\\', ']', '^', '|'].contains c

/-- Reads a host: an address in brackets, a domain, or plain text for other schemes. -/
def parseHost (hosts : HostParser) (special : Bool) (text : Text) : Except String Text :=
  match text with
  | '[' :: rest =>
      if rest.getLast? = some ']' then hosts.ipv6 rest.dropLast
      else .error "invalid IPv6 address"
  | text =>
      if special then hosts.domain text
      else if text.any isForbiddenHost then .error "invalid domain character"
      else .ok (percentEncode controlSet text)

/-- Splits a host from its port at the first colon outside brackets. -/
def splitPort : Bool → Text → Text × Option Text
  | _, [] => ([], none)
  | inside, c :: rest =>
      if c = ':' && !inside then ([], some rest)
      else
        let inner := if c = '[' then true else if c = ']' then false else inside
        let parts := splitPort inner rest
        (c :: parts.1, parts.2)

def parsePort (scheme text : Text) : Except String (Option ℕ) :=
  if text.isEmpty then .ok none
  else if text.all Char.isDigit then
    let number := text.foldl (fun value digit => 10 * value + (digit.toNat - 48)) 0
    if 65535 < number then .error "invalid port number"
    else .ok (if defaultPort scheme = some number then none else some number)
  else .error "invalid port number"

/-- Reads an authority; everything before its last `@` is user information. -/
def parseAuthority (hosts : HostParser) (scheme text : Text) : Except String Authority := do
  let hostText := text.rtakeWhile (· ≠ '@')
  let userinfo := (text.rdropWhile (· ≠ '@')).dropLast
  if text.contains '@' && hostText.isEmpty then .error "empty host"
  let parts := splitPort false hostText
  if parts.1.isEmpty && (parts.2.isSome || isSpecial scheme) then .error "empty host"
  let host ← parseHost hosts (isSpecial scheme) parts.1
  let port ← parsePort scheme (parts.2.getD [])
  return {
    username := percentEncode userinfoSet (userinfo.takeWhile (· ≠ ':'))
    password := percentEncode userinfoSet ((userinfo.dropWhile (· ≠ ':')).drop 1)
    host := host
    port := port
  }

/-- Ends an authority. -/
def isAuthorityEnd (special : Bool) (c : Char) : Bool := isSlash special c || isTail c

/-- The authority state, after the two slashes. -/
def authorityState (hosts : HostParser) (scheme input : Text) : Except String Url := do
  let special := isSpecial scheme
  let authority ← parseAuthority hosts scheme (input.takeWhile (!isAuthorityEnd special ·))
  return pathStartState ⟨scheme, some authority, .segments [], none, none⟩
    (input.dropWhile (!isAuthorityEnd special ·))

/-- The authority of a `file` URL without a host. -/
def localAuthority : Authority := ⟨[], [], [], none⟩

/-- A `file` URL with nothing read yet. -/
def fileUrl (authority : Option Authority) : Url := ⟨file, authority, .segments [], none, none⟩

/-- The file host state, after the two slashes. -/
def fileHostState (hosts : HostParser) (input : Text) : Except String Url := do
  let text := input.takeWhile (!isAuthorityEnd true ·)
  let rest := input.dropWhile (!isAuthorityEnd true ·)
  if isDriveLetter text then return pathState (fileUrl (some localAuthority)) [] input
  else if text.isEmpty then return pathStartState (fileUrl (some localAuthority)) rest
  else
    let host ← parseHost hosts true text
    let host := if host = "localhost".toList then [] else host
    return pathStartState (fileUrl (some { localAuthority with host := host })) rest

/-- The segments of a base URL. -/
def Url.baseSegments (base : Url) : List Text :=
  match base.path with
  | .segments list => list
  | .verbatim _ => []

/-- The drive of a `file` base, which a rooted reference keeps. -/
def keptDrive (base : Url) (input : Text) : List Text :=
  match base.baseSegments with
  | first :: _ =>
      if !startsWithDriveLetter input && isNormalizedDriveLetter first then [first] else []
  | [] => []

/-- The file slash state, after one slash. -/
def fileSlashState (hosts : HostParser) (base : Option Url) (input : Text) :
    Except String Url :=
  match input, base with
  | first :: rest, base =>
      if isSlash true first then fileHostState hosts rest
      else match base with
        | some base => .ok (pathState (fileUrl base.authority) (keptDrive base input) input)
        | none => .ok (pathState (fileUrl (some localAuthority)) [] input)
  | [], some base => .ok (pathState (fileUrl base.authority) (keptDrive base []) [])
  | [], none => .ok (pathState (fileUrl (some localAuthority)) [] [])

/-- What a reference inherits when it starts with a query, a fragment or nothing. -/
def inherit (base : Url) (input : Text) : Url :=
  match input with
  | '?' :: _ => readTail { base with query := none, fragment := none } input
  | _ => readTail { base with fragment := none } input

/-- The file state, after the colon of the scheme or at the start of a reference. -/
def fileState (hosts : HostParser) (base : Option Url) (input : Text) : Except String Url :=
  match input, base with
  | [], none => .ok (pathState (fileUrl (some localAuthority)) [] [])
  | [], some base => .ok (inherit base [])
  | first :: rest, base =>
      if isSlash true first then fileSlashState hosts base rest
      else match base with
        | none => .ok (pathState (fileUrl (some localAuthority)) [] input)
        | some base =>
            if isTail first then .ok (inherit base input)
            else
              let path :=
                if startsWithDriveLetter input then [] else shorten true base.baseSegments
              .ok (pathState (fileUrl base.authority) path input)

/-- The relative slash state, after one slash. -/
def relativeSlashState (hosts : HostParser) (base : Url) (input : Text) : Except String Url :=
  match input with
  | first :: rest =>
      if isSpecial base.scheme && isSlash true first then
        authorityState hosts base.scheme (rest.dropWhile (isSlash true))
      else if first = '/' then authorityState hosts base.scheme rest
      else .ok (pathState { base with query := none, fragment := none } [] input)
  | [] => .ok (pathState { base with query := none, fragment := none } [] [])

/-- The relative state: a reference without a scheme, to a base that is no `file` URL. -/
def relativeState (hosts : HostParser) (base : Url) (input : Text) : Except String Url :=
  match input with
  | [] => .ok (inherit base [])
  | first :: rest =>
      if isSlash (isSpecial base.scheme) first then relativeSlashState hosts base rest
      else if isTail first then .ok (inherit base input)
      else .ok (pathState { base with query := none, fragment := none }
        (shorten false base.baseSegments) input)

/-- The text of a URL that cannot be a base. -/
def verbatimState (scheme input : Text) : Url :=
  readTail
    ⟨scheme, none, .verbatim (percentEncode controlSet (input.takeWhile (!isTail ·))), none, none⟩
    (input.dropWhile (!isTail ·))

/-- The states that follow a scheme. -/
def afterScheme (hosts : HostParser) (base : Option Url) (scheme input : Text) :
    Except String Url :=
  if scheme = file then fileState hosts (base.filter (·.scheme = file)) input
  else if isSpecial scheme then
    match base.filter (·.scheme = scheme) with
    | some base =>
        if ['/', '/'].isPrefixOf input then
          authorityState hosts scheme (input.dropWhile (isSlash true))
        else relativeState hosts base input
    | none => authorityState hosts scheme (input.dropWhile (isSlash true))
  else
    match input with
    | '/' :: '/' :: rest => authorityState hosts scheme rest
    | '/' :: rest => .ok (pathState ⟨scheme, none, .segments [], none, none⟩ [] rest)
    | input => .ok (verbatimState scheme input)

/-- The no scheme state. -/
def withoutScheme (hosts : HostParser) (base : Option Url) (input : Text) : Except String Url :=
  match base with
  | none => .error "relative URL without a base"
  | some base =>
      match base.path with
      | .verbatim _ =>
          if input.head? = some '#' then .ok (inherit base input)
          else .error "relative URL with a cannot-be-a-base base"
      | .segments _ =>
          if base.scheme = file then fileState hosts (some base) input
          else relativeState hosts base input

/-- The basic URL parser. -/
def parse (hosts : HostParser) (base : Option Url) (input : Text) : Except String Url :=
  match scheme? (clean input) with
  | some (scheme, rest) => afterScheme hosts base scheme rest
  | none => withoutScheme hosts base (clean input)

end ParqDB.Foundations.Whatwg
