import VpnStack.Lib.Text

/-!
# The page that hands a bundle over

`serve` of share.py: one page with the files of a bundle beside it, on a path nobody can guess, for a short while. The requests and
the reaper share two fields, when the page was first fetched and whether the link is dead. What a request is answered with is a
function of these, of the time and of the path.
-/

namespace VpnStack

namespace SharePage

def graceAfterFetch : ℚ := 120

def hardTimeout : ℚ := 600

/-- `CONTENT_TYPES.get(suffix, …)` -/
def contentType (suffix : Text) : String :=
  if suffix = ".mobileconfig" then "application/x-apple-aspen-config"
  else if suffix = ".p12" then "application/x-pkcs12"
  else if suffix = ".sswan" then "application/octet-stream"
  else if suffix = ".png" then "image/png"
  else "application/octet-stream"

/-- `name[name.rfind("."):] if "." in name else ""` -/
def suffix (name : Text) : Text :=
  match Text.cutLast '.' name with
  | some (_, tail) => '.' :: tail
  | none => []

/-- What `serve` is called with and makes at its start: the files of the bundle with their labels, the token, and the time. -/
structure Page where
  files : List (Text × String × Bytes)
  token : Text
  started : ℚ

/-- `state`: the time is that of the first request for the page, and a clock that reads zero is as good as none. -/
structure State where
  fetchedAt : Option ℚ := none
  dead : Bool := false
  deriving DecidableEq

/-- The answer to a request. Two of them are a 404, and the client cannot tell them apart. -/
inductive Answer where
  | page
  | file (name : Text) (ctype : String) (body : Bytes)
  | notFound
  | expired
  deriving DecidableEq

def Answer.status : Answer → Nat
  | .page => 200
  | .file .. => 200
  | .notFound => 404
  | .expired => 404

/-- The two deadlines, the second of them only once the page was fetched. -/
def lapsed (started now : ℚ) (s : State) : Bool :=
  if now - started > hardTimeout then true
  else
    match s.fetchedAt with
    | none => false
    | some fetched => fetched ≠ 0 && now - fetched > graceAfterFetch

/-- What a request and the reaper both do where the link is not known to be dead. -/
def burn (started now : ℚ) (s : State) : State := if lapsed started now s then { s with dead := true } else s

/-- `Handler._expired`, whose answer is the field it leaves. -/
def expired (started now : ℚ) (s : State) : State := if s.dead then s else burn started now s

/-- The turn of the reaper's loop behind its `sleep`. -/
def reap (started now : ℚ) (s : State) : State := burn started now s

/-- The file a path asks for. Anything else, a wrong token with it, is not found. -/
def file (p : Page) (path : Text) : Answer :=
  if (p.token ++ ['/']).isPrefixOf path then
    match p.files.lookup (path.drop (p.token.length + 1)) with
    | some (_, blob) =>
      .file (path.drop (p.token.length + 1)) (contentType (suffix (path.drop (p.token.length + 1)))) blob
    | none => .notFound
  else .notFound

/-- The part of `do_GET` behind the test of expiry. -/
def find (p : Page) (now : ℚ) (path : Text) (s : State) : Answer × State :=
  if path = p.token then (.page, { s with fetchedAt := s.fetchedAt <|> some now }) else (file p path, s)

/-- `do_GET`, with all it reads of the clock read at one time. -/
def doGet (p : Page) (now : ℚ) (path : Text) (s : State) : Answer × State :=
  let s := expired p.started now s
  if s.dead then (.expired, s) else find p now (path.dropWhile (· = '/')) s

/-! ## Runs -/

/-- What happens to the server: a request is handled, or the reaper wakes. -/
inductive Event where
  | get (now : ℚ) (path : Text)
  | tick (now : ℚ)

def Event.now : Event → ℚ
  | .get now _ => now
  | .tick now => now

/-- The answer, if it was a request, and what is left behind. -/
def step (p : Page) (s : State) : Event → Option Answer × State
  | .get now path => (some (doGet p now path s).1, (doGet p now path s).2)
  | .tick now => (none, reap p.started now s)

/-- The state after the events, the last of them first. -/
def after (p : Page) : List Event → State
  | [] => {}
  | e :: past => (step p (after p past) e).2

/-- What an event is answered with after those before it. -/
def answer (p : Page) (past : List Event) (e : Event) : Option Answer := (step p (after p past) e).1

/-- When an answer of that kind was first given. -/
def firstAt (p : Page) (kind : Answer → Bool) : List Event → Option ℚ
  | [] => none
  | e :: past => firstAt p kind past <|> if (answer p past e).any kind then some e.now else none

end SharePage

end VpnStack
