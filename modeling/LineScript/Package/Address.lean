import LineScript.Text.Pieces

/-!
# Addresses on the network

References are resolved against the place of the package repository, the way web links are: a full address
stands alone, a path from the root replaces the path, and any other path goes below the repository.
-/

namespace LineScript.Address

structure Parts where
  scheme : List Char := []
  host : List Char := []
  path : List Char := []
  params : List Char := []
  query : List Char := []
  fragment : List Char := []

def isSchemeChar (c : Char) : Bool := c.isAlphanum || c = '+' || c = '-' || c = '.'

/-- Characters in front that do not count: controls and the blank. -/
def isLead (c : Char) : Bool := c.toNat ≤ 0x20

def isBreak (c : Char) : Bool := c = '\t' || c = '\r' || c = '\n'

/-- What precedes and what follows a character; nothing follows if it is absent. -/
def cutAt (c : Char) (s : List Char) : List Char × List Char :=
  (s.takeWhile (· ≠ c), (s.dropWhile (· ≠ c)).drop 1)

def splitScheme (default : List Char) (s : List Char) : List Char × List Char :=
  let head := s.takeWhile (· ≠ ':')
  if head.length < s.length && head.head?.any Char.isAlpha && head.all isSchemeChar then
    (head.map Char.toLower, s.drop (head.length + 1))
  else (default, s)

def isHostEnd (c : Char) : Bool := c = '/' || c = '?' || c = '#'

def splitHost (s : List Char) : List Char × List Char :=
  match s with
  | '/' :: '/' :: rest => (rest.takeWhile (!isHostEnd ·), rest.dropWhile (!isHostEnd ·))
  | s => ([], s)

/-- Parameters follow a semicolon in the last segment. -/
def splitParams (s : List Char) : List Char × List Char :=
  let last := (s.reverse.takeWhile (· ≠ '/')).reverse
  let head := s.take (s.length - last.length)
  let (a, b) := cutAt ';' last
  (head ++ a, b)

def parse (default : List Char) (s : List Char) : Parts :=
  let s := (s.dropWhile isLead).filter (!isBreak ·)
  let (scheme, s) := splitScheme default s
  let (host, s) := splitHost s
  let (s, fragment) := cutAt '#' s
  let (s, query) := cutAt '?' s
  let (path, params) := splitParams s
  { scheme, host, path, params, query, fragment }

def mark (c : Char) (s : List Char) : List Char := if s.isEmpty then [] else c :: s

def Parts.text (p : Parts) : List Char :=
  let path := p.path ++ mark ';' p.params
  let path := if !path.isEmpty && path.head? ≠ some '/' then '/' :: path else path
  p.scheme ++ ':' :: '/' :: '/' :: p.host ++ path ++ mark '?' p.query ++ mark '#' p.fragment

/-- Walks segments: two dots go back, one dot stays. -/
def walkSegments (done : List (List Char)) : List (List Char) → List (List Char)
  | [] => done
  | seg :: rest =>
    if seg = ['.', '.'] then walkSegments done.dropLast rest
    else if seg = ['.'] then walkSegments done rest
    else walkSegments (done ++ [seg]) rest

def isDots (seg : List Char) : Bool := seg = ['.'] || seg = ['.', '.']

/-- The path of a reference below a path that ends in a slash. -/
def joinPath (base path : List Char) : List Char :=
  let segments :=
    if path.head? = some '/' then Text.splitOn ['/'] path
    else
      let all := Text.splitOn ['/'] base ++ Text.splitOn ['/'] path
      all.take 1 ++ ((all.drop 1).dropLast.filter (!·.isEmpty)) ++ (all.drop 1).getLast?.toList
  let walked := walkSegments [] segments
  let walked := if segments.getLast?.any isDots then walked ++ [[]] else walked
  let joined := Text.joinWith ['/'] walked
  if joined.isEmpty then ['/'] else joined

def scheme : List Char := "https".toList

def host : List Char := "raw.githubusercontent.com".toList

def root : List Char := "/this-guy-git/guython-packages/main/packages/".toList

def resolve (ref : List Char) : List Char :=
  let p := parse scheme ref
  if p.scheme ≠ scheme then ref
  else if !p.host.isEmpty then p.text
  else
    let p := { p with host }
    if p.path.isEmpty && p.params.isEmpty then { p with path := root }.text
    else { p with path := joinPath root p.path }.text

/-- Addresses in the repository are known by what follows its place. -/
def key (address : List Char) : List Char :=
  let place := scheme ++ "://".toList ++ host ++ root
  if Text.startsWith address place then address.drop place.length else address

end LineScript.Address
