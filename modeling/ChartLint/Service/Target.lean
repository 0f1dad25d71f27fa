import ChartLint.Fault

/-!
# Request targets

A request says what it is for by a target, which is a URL reference: `/audit`, `audit?x=1`,
`//host/audit` and `http://host/audit` all lead to the same path. A target is cut into a scheme, an
authority and a path; a query and a fragment are of no account.

A target that names both a scheme and a host keeps its path. Every other one is relative, and its
path is taken from the root of the service. Either way the path loses its steps in place (`.`) and
its steps up (`..`). Escapes are undone after that, so that an escaped slash or dot never takes
part in the steps.
-/

namespace ChartLint.Service

/-! ## Parts -/

/-- A target without its query and fragment. -/
structure Target where
  scheme : Text
  authority : Text
  path : Text
deriving DecidableEq, Repr

namespace Target

/-- A character of a scheme, which starts with a letter. -/
def isSchemeChar (c : Char) : Bool :=
  c.isAlphanum || c == '+' || c == '.' || c == '-'

/-- Cuts off the scheme and the colon behind it. A colon at the start ends an empty scheme. -/
def cutScheme (t : Text) : Text × Text :=
  let name := t.takeWhile isSchemeChar
  match t.dropWhile isSchemeChar with
  | ':' :: rest => if (name.take 1).all Char.isAlpha then (name, rest) else ([], t)
  | _ => ([], t)

/-- A character that ends a path. -/
def endsPath (c : Char) : Bool :=
  c == '?' || c == '#'

/-- Cuts off the authority, which stands behind two slashes. -/
def cutAuthority : Text → Text × Text
  | '/' :: '/' :: rest =>
    let inside := fun c => !(c == '/' || endsPath c)
    (rest.takeWhile inside, rest.dropWhile inside)
  | t => ([], t)

/-- The parts of a target. -/
def ofText (t : Text) : Target :=
  let (scheme, behindScheme) := cutScheme t
  let (authority, behindAuthority) := cutAuthority behindScheme
  ⟨scheme, authority, behindAuthority.takeWhile (fun c => !endsPath c)⟩

/-- The address in an authority, its host and port, which stand behind the last at sign. -/
def address (t : Target) : Text :=
  (t.authority.reverse.takeWhile (· != '@')).reverse

/-- Whether an authority names a user. -/
def hasUser (t : Target) : Bool :=
  t.address.length + 1 < t.authority.length

/-- The length of the host of an address. A host in square brackets ends at the last closing one,
every other host at the first colon. -/
def hostLength (address : Text) : Nat :=
  if address.head? == some '[' && ']' ∈ address then
    address.length - (address.reverse.takeWhile (· != ']')).length
  else
    (address.takeWhile (· != ':')).length

/-- The host of a target; empty when there is none. -/
def host (t : Target) : Text :=
  t.address.take (hostLength t.address)

/-- The port that a target names, as it is written; empty when there is none. -/
def port (t : Target) : Text :=
  match t.address.drop (hostLength t.address) with
  | ':' :: port => port
  | port => port

/-- Whether a target is complete: it names a scheme and a host. -/
def isComplete (t : Target) : Bool :=
  !t.scheme.isEmpty && !t.host.isEmpty

/-- Whether a target is more than a path. -/
def isQualified (t : Target) : Bool :=
  !t.scheme.isEmpty || t.hasUser || !t.host.isEmpty || !t.port.isEmpty

/-! ## Steps -/

/-- Takes one step of a path; `taken` holds the steps so far, the last one first. A step up from
the root stays there. -/
def takeStep (taken : List Text) (step : Text) : List Text :=
  if step = ['.'] then taken
  else if step = ['.', '.'] then
    if taken = [[]] then taken else taken.tail
  else step :: taken

/-- A path without steps in place and steps up. -/
def settle (path : Text) : Text :=
  List.intercalate ['/'] ((Text.split '/' path).foldl takeStep []).reverse

/-- The path from the root of the service that a target leads to, with its escapes. -/
def route (t : Target) : Text :=
  let path := if t.isQualified then settle t.path else t.path
  let settled := if t.isComplete then path else settle ('/' :: Text.trimStartBy (· == '/') path)
  if settled.isEmpty then ['/'] else settled

/-! ## Escapes -/

/-- The value of a hexadecimal digit. -/
def hexValue? (c : Char) : Option Nat :=
  if c.isDigit then some (c.toNat - '0'.toNat)
  else if 'a' ≤ c && c ≤ 'f' then some (c.toNat - 'a'.toNat + 10)
  else if 'A' ≤ c && c ≤ 'F' then some (c.toNat - 'A'.toNat + 10)
  else none

/-- The character of an escaped byte. Bytes outside ASCII come out as the replacement character:
no path of the service has one. -/
def ofByte (n : Nat) : Char :=
  if n < 0x80 then Char.ofNat n else Char.ofNat 0xFFFD

/-- Undoes the escapes of a path once; what is no escape stays as it is. -/
def unescape : Text → Text
  | [] => []
  | '%' :: a :: b :: rest =>
    match hexValue? a, hexValue? b with
    | some high, some low => ofByte (16 * high + low) :: unescape rest
    | _, _ => '%' :: unescape (a :: b :: rest)
  | c :: rest => c :: unescape rest

/-- A path without escapes is its own reading. -/
theorem unescape_of_not_mem (path : Text) (h : '%' ∉ path) : unescape path = path := by
  induction path with
  | nil => rfl
  | cons c rest ih =>
    obtain ⟨hc, hrest⟩ := not_or.mp (fun h' => h (List.mem_cons.mpr h'))
    rw [unescape, ih hrest]
    rintro a b others rfl
    exact fun _ => hc rfl

/-! ## Reading -/

/-- The longest target that is read. -/
def lengthLimit : Nat := 65536

/-- An ASCII character without a visible form. -/
def isControl (c : Char) : Bool :=
  c.toNat < 0x20 || c.toNat == 0x7F

/-- Objects to the parts of a target: a port must be a number, and a bare path must not be taken
for an authority or a scheme. -/
def check (t : Target) : Except Fault Unit :=
  if !t.port.isEmpty && (Text.numeral? t.port).isNone then
    .error (.unreadablePort (String.ofList t.port))
  else if t.isQualified then .ok ()
  else if ['/', '/'].isPrefixOf t.path then .error .pathLikeAuthority
  else if [':'].isPrefixOf t.path then .error .pathLikeScheme
  else .ok ()

/-- Reads a target. -/
def read (s : String) : Except Fault Target :=
  let t := s.toList
  if lengthLimit < t.length then .error .longTarget
  else
    match t.findIdx? isControl with
    | some position => .error (.controlInTarget (t.getD position ' ') position)
    | none => do
      let target := ofText t
      target.check
      return target

/-- The path that a target leads to. Escapes are undone twice: by the one who sends the request and
by the one who takes it. -/
def destination (t : Target) : Text :=
  unescape (unescape t.route)

end Target

end ChartLint.Service
