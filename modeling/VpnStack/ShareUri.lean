import VpnStack.Lib.Percent
import VpnStack.Lib.Dart
import VpnStack.Lib.Fallible

/-!
# Reading a share link

`lib/config` of the app: `share_uri.dart` splits a link, once, for both schemes; `vless_reality.dart` and `hysteria2.dart` turn
what they need of it into an outbound of sing-box. Every refusal says where, without the credential, and why.
-/

namespace VpnStack

namespace ShareUri

/-! ## Refusals -/

/-- A share URI that cannot be turned into an outbound. -/
structure ShareUriException where
  where_ : Text
  reason : Text
  deriving DecidableEq, Repr

abbrev Parsed (α : Type) := Except ShareUriException α

/-- `refuse`. -/
def refuse {α : Type} (where_ reason : Text) : Parsed α := .error ⟨where_, reason⟩

/-- `if (c) refuse(reason)`. -/
def refuseIf (c : Prop) [Decidable c] (where_ reason : Text) : Parsed Unit := Except.raiseIf c ⟨where_, reason⟩

/-- A number in a message. -/
def decimal (n : Nat) : Text := Nat.toDigits 10 n

/-- `_decode`. -/
def decode (where_ value what : Text) : Parsed Text :=
  match Percent.decodeComponent value with
  | some t => .ok t
  | none => refuse where_ (what ++ " is not valid percent-encoding".toList)

/-! ## `share_uri.dart` -/

/-- `shareUriScheme`. -/
def shareUriScheme (cases : Dart.CaseMap) (text : Text) : Parsed Text :=
  let trimmed := Dart.trim text
  match Dart.indexOf "://" trimmed with
  | some (n + 1) => .ok (cases.toLowerCase (trimmed.take (n + 1)))
  | _ => refuse ("the share URI (".toList ++ decimal (Dart.length trimmed) ++ " characters)".toList)
      "no scheme: expected <scheme>://<credential>@<host>:<port>"

/-- One share URI, split and decoded. -/
structure ShareUriParts where
  scheme : Text
  where_ : Text
  credential : Text
  host : Text
  port : Int
  params : List (Text × Text)
  name : Option Text
  deriving DecidableEq, Repr

/-- The credential, as it stands, and what follows it: it ends at the last at sign. -/
def splitCredential (where_ scheme rest : Text) : Parsed (Text × Text) :=
  match Text.cutLast '@' rest with
  | some cut => .ok cut
  | none => refuse where_ ("no credential: expected ".toList ++ scheme ++ "://<credential>@<host>:<port>".toList)

/-- Neither link has a path: one slash at the end may stand. -/
def withoutPath (where_ authority : Text) : Parsed Text :=
  match Text.cut '/' authority with
  | (authority, none) => .ok authority
  | (authority, some []) => .ok authority
  | _ => refuse where_ "has a path, and neither share link this server issues has one"

/-- The host and the text of the port. -/
def splitAuthority (where_ authority : Text) : Parsed (Text × Text) :=
  match authority with
  | '[' :: literal =>
    match Text.cut ']' literal with
    | (_, none) => refuse where_ "the IPv6 literal after @ is missing its closing bracket"
    | (host, some (':' :: portText)) => .ok (host, portText)
    | _ => refuse where_ "no port after the IPv6 literal"
  | authority =>
    match Text.cut ':' authority, Text.cutLast ':' authority with
    | (host, some portText), some (host', _) =>
      if host ≠ host' then
        refuse where_ ("an IPv6 address must be bracketed as [address]:port; ".toList ++
          "without brackets the port cannot be told from the address".toList)
      else .ok (host, portText)
    | _, _ => refuse where_ "no port: expected <host>:<port> after @"

def readPort (where_ portText : Text) : Parsed Int :=
  match Dart.intTryParse portText with
  | none => refuse where_ "the port is not a number between 1 and 65535"
  | some port => if port < 1 ∨ port > 65535 then refuse where_ "the port is not a number between 1 and 65535" else .ok port

/-- One `key=value` of the query. -/
def addParam (where_ : Text) (params : List (Text × Text)) (pair : Text) : Parsed (List (Text × Text)) :=
  if pair = [] then .ok params
  else
    match Text.cut '=' pair with
    | (c :: cs, some rawValue) => do
      let key ← decode where_ (c :: cs) "a parameter name"
      let value ← decode where_ rawValue ("the value of `".toList ++ key ++ ['\x60'])
      if (params.lookup key).isSome then refuse where_ ("the parameter `".toList ++ key ++ "` appears more than once".toList)
      else return params ++ [(key, value)]
    | _ => refuse where_ "the query has a segment that is not key=value"

/-- What follows `<scheme>://`. -/
def splitRest (scheme rest : Text) : Parsed ShareUriParts := do
  let elided := scheme ++ "://…".toList
  -- the fragment first: it may itself contain a question mark
  let (rest, rawName) := Text.cut '#' rest
  let decodedName ← decode elided (rawName.getD []) "the #fragment"
  let (rest, query) := Text.cut '?' rest
  -- the credential is split off before the path is looked for: a password may have a slash in it
  let (rawCredential, authority) ← splitCredential elided scheme rest
  let credential ← decode elided rawCredential "the credential"
  refuseIf (credential = []) elided "the credential before @ is empty"
  let authority ← withoutPath elided authority
  let (host, portText) ← splitAuthority elided authority
  refuseIf (host = []) elided "the host is empty"
  let port ← readPort elided portText
  let number := decimal port.toNat
  let where_ := if ':' ∈ host then scheme ++ "://…@[".toList ++ host ++ "]:".toList ++ number
    else scheme ++ "://…@".toList ++ host ++ ':' :: number
  let params ← ((query.getD []).splitOn '&').foldlM (addParam where_) []
  return {
    scheme := scheme, where_ := where_, credential := credential, host := host, port := port, params := params,
    name := if decodedName = [] then none else some decodedName }

/-- `splitShareUri`. -/
def splitShareUri (text scheme : Text) : Parsed ShareUriParts :=
  let trimmed := Dart.trim text
  let marker := scheme ++ "://".toList
  if marker <+: trimmed then splitRest scheme (trimmed.drop marker.length)
  else refuse (scheme ++ "://…".toList) ("not a ".toList ++ scheme ++ " URI".toList)

namespace ShareUriParts

variable (parts : ShareUriParts)

/-- `require`. -/
def require (key : String) (purpose : Text) : Parsed Text :=
  match parts.params.lookup key.toList with
  | some (c :: cs) => .ok (c :: cs)
  | _ => refuse parts.where_ ("no ".toList ++ key ++ " parameter, ".toList ++ purpose)

/-- `rejectUnknownParameters`. -/
def rejectUnknownParameters (known : List String) : Parsed Unit :=
  let unknown := Dart.sort ((parts.params.map (·.1)).filter (· ∉ known.map String.toList))
  refuseIf (unknown ≠ []) parts.where_ ("parameter(s) this app does not know: ".toList ++ ", ".toList.intercalate unknown ++
    ". Either the server is newer than the app, or this URI came from somewhere else".toList)

/-- `requireOneOf`. -/
def requireOneOf (key : String) (purpose : Text) (allowed : List String) : Parsed Text := do
  let value ← parts.require key purpose
  refuseIf (value ∉ allowed.map String.toList) parts.where_ (key.toList ++ " is `".toList ++ value ++
    "`, and this app only imports ".toList ++
      " or ".toList.intercalate ((Dart.sort (allowed.map String.toList)).map fun v => '\x60' :: v ++ ['\x60']))
  return value

end ShareUriParts

/-! ## `outbound.dart` -/

/-- `VlessRealityOutbound`. -/
structure VlessRealityOutbound where
  tag : Text
  server : Text
  serverPort : Int
  profileName : Option Text
  uuid : Text
  flow : Text
  serverName : Text
  fingerprint : Text
  publicKey : Text
  shortId : Text
  deriving DecidableEq, Repr

/-- How the client is told to trust the certificate of a link that pins none. -/
inductive Hysteria2Trust where
  | systemRoots
  | anyCertificate
  deriving DecidableEq, Repr

/-- `Hysteria2Outbound`. -/
structure Hysteria2Outbound where
  tag : Text
  server : Text
  serverPort : Int
  profileName : Option Text
  password : Text
  serverName : Text
  trust : Hysteria2Trust
  obfsType : Option Text
  obfsPassword : Option Text
  pinSha256 : Option Text
  spkiSha256 : Option Text
  deriving DecidableEq, Repr

/-- An outbound this app can write into a configuration. -/
inductive OutboundConfig where
  | vless (out : VlessRealityOutbound)
  | hysteria2 (out : Hysteria2Outbound)
  deriving DecidableEq, Repr

/-! ## `vless_reality.dart` -/

/-- `_fingerprints`. -/
def fingerprints : List String :=
  ["chrome", "firefox", "edge", "safari", "360", "qq", "ios", "android", "random", "randomized"]

/-- `A-Z`, `a-z`, `0-9`, `-` and `_`, as code units. -/
def isBase64Url (n : Nat) : Bool :=
  (0x41 ≤ n && n ≤ 0x5a) || (0x61 ≤ n && n ≤ 0x7a) || (0x30 ≤ n && n ≤ 0x39) || n == 0x2d || n == 0x5f

/-- `0-9`, `a-f` and `A-F`, as code units. -/
def isHex (n : Nat) : Bool := (0x30 ≤ n && n ≤ 0x39) || (0x61 ≤ n && n ≤ 0x66) || (0x41 ≤ n && n ≤ 0x46)

/-- `_checkPublicKey`: 32 bytes, as unpadded base64url. -/
def checkPublicKey (parts : ShareUriParts) (value : Text) : Parsed Unit := do
  refuseIf (Dart.length value ≠ 43) parts.where_ ("pbk is ".toList ++ decimal (Dart.length value) ++
    " characters; a REALITY public key is 43 (32 bytes, unpadded base64url)".toList)
  refuseIf (¬ ∀ n ∈ Dart.codeUnits value, isBase64Url n) parts.where_ "pbk is not unpadded base64url"

/-- `_checkShortId`: at most eight bytes, in hexadecimal. -/
def checkShortId (parts : ShareUriParts) (value : Text) : Parsed Unit := do
  refuseIf (Dart.length value > 16 ∨ Dart.length value % 2 = 1) parts.where_ ("sid is ".toList ++ decimal (Dart.length value) ++
    " hex characters; a REALITY short_id is an even number of them, at most 16 (8 bytes)".toList)
  refuseIf (¬ ∀ n ∈ Dart.codeUnits value, isHex n) parts.where_ "sid is not hexadecimal"

/-- There is no key to write the header type into. -/
def checkHeaderType (parts : ShareUriParts) : Parsed Unit :=
  match parts.params.lookup "headerType".toList with
  | some headerType => refuseIf (headerType ≠ "none".toList) parts.where_ ("headerType is `".toList ++ headerType ++
      "`; sing-box does not implement v2ray's TCP header obfuscation, so this link cannot be imported".toList)
  | none => .ok ()

/-- What is made of the parts of a `vless://` link. -/
def vlessRealityOutbound (tag : Text) (parts : ShareUriParts) : Parsed VlessRealityOutbound := do
  parts.rejectUnknownParameters ["encryption", "flow", "security", "sni", "fp", "pbk", "sid", "type", "headerType"]
  let _ ← parts.requireOneOf "encryption" "which every VLESS link carries" ["none"]
  let _ ← parts.requireOneOf "type" "which says which transport to build" ["tcp"]
  checkHeaderType parts
  let _ ← parts.requireOneOf "security" "which says how the connection is secured" ["reality"]
  let flow ← parts.requireOneOf "flow" "which selects the VLESS sub-protocol" ["xtls-rprx-vision"]
  let serverName ← parts.require "sni" "which is the name REALITY fronts and cannot be guessed"
  let fingerprint ← parts.require "fp" "which selects the uTLS ClientHello to imitate"
  refuseIf (fingerprint ∉ fingerprints.map String.toList) parts.where_ ("fp is `".toList ++ fingerprint ++
    "`, which is not one of sing-box 1.14's uTLS fingerprints (".toList ++
      ", ".toList.intercalate (Dart.sort (fingerprints.map String.toList)) ++ [')'])
  let publicKey ← parts.require "pbk" "which REALITY cannot connect without"
  checkPublicKey parts publicKey
  let shortId ← parts.require "sid" "which REALITY cannot connect without"
  checkShortId parts shortId
  return {
    tag := tag, server := parts.host, serverPort := parts.port, profileName := parts.name, uuid := parts.credential,
    flow := flow, serverName := serverName, fingerprint := fingerprint, publicKey := publicKey, shortId := shortId }

/-- `parseVlessRealityUri`. -/
def parseVlessRealityUri (text tag : Text) : Parsed VlessRealityOutbound := do
  let parts ← splitShareUri text "vless"
  vlessRealityOutbound tag parts

/-! ## `hysteria2.dart` -/

/-- Neither parameter of the obfuscation is there without the other. -/
def checkObfs (parts : ShareUriParts) : Parsed Unit :=
  let obfsPassword := parts.params.lookup "obfs-password".toList
  match parts.params.lookup "obfs".toList with
  | some type => do
    refuseIf (type ≠ "salamander".toList) parts.where_ ("obfs is `".toList ++ type ++
      "`, and this server only issues `salamander`".toList)
    refuseIf (obfsPassword.getD [] = []) parts.where_ ("obfs is set but obfs-password is not, which would scramble ".toList ++
      "every packet with a key the server does not share".toList)
  | none => refuseIf (obfsPassword.isSome = true) parts.where_ ("obfs-password is set but obfs is not, so there is ".toList ++
      "nothing to tell sing-box which obfuscator to build".toList)

/-- What is made of the parts of a `hysteria2://` link. -/
def hysteria2Outbound (trust : Hysteria2Trust) (tag : Text) (parts : ShareUriParts) : Parsed Hysteria2Outbound := do
  parts.rejectUnknownParameters ["obfs", "obfs-password", "sni", "pinSHA256", "spki"]
  let serverName ← parts.require "sni" "which is the name the certificate is issued for"
  checkObfs parts
  return {
    tag := tag, server := parts.host, serverPort := parts.port, profileName := parts.name,
    password := parts.credential, serverName := serverName, trust := trust, obfsType := parts.params.lookup "obfs".toList,
    obfsPassword := parts.params.lookup "obfs-password".toList, pinSha256 := parts.params.lookup "pinSHA256".toList,
    spkiSha256 := parts.params.lookup "spki".toList }

/-- `parseHysteria2Uri`. -/
def parseHysteria2Uri (text : Text) (trust : Hysteria2Trust) (tag : Text) : Parsed Hysteria2Outbound := do
  let parts ← splitShareUri text "hysteria2"
  hysteria2Outbound trust tag parts

/-! ## `parse.dart` -/

/-- `parseShareUri`. -/
def parseShareUri (cases : Dart.CaseMap) (text : Text) (trust : Hysteria2Trust) (tag : Text) : Parsed OutboundConfig := do
  let scheme ← shareUriScheme cases text
  if scheme = "vless".toList then do
    let out ← parseVlessRealityUri text tag
    return .vless out
  else if scheme = "hysteria2".toList then do
    let out ← parseHysteria2Uri text trust tag
    return .hysteria2 out
  else
    refuse (scheme ++ "://…".toList) "this app imports vless and hysteria2 links, and those are the only two vpnctl issues"

/-- The message of a refusal. -/
def ShareUriException.message (e : ShareUriException) : Text := e.where_ ++ ": ".toList ++ e.reason

/-- The loop of `selectOutbound`: the first URI that can be imported, or the refusals of all. -/
def firstOutbound (cases : Dart.CaseMap) (trust : Hysteria2Trust) (tag : Text) : List Text → Except (List Text) OutboundConfig
  | [] => .error []
  | uri :: uris =>
    match parseShareUri cases uri trust tag with
    | .ok out => .ok out
    | .error e =>
      match firstOutbound cases trust tag uris with
      | .ok out => .ok out
      | .error refusals => .error (e.message :: refusals)

/-- `selectOutbound`. -/
def selectOutbound (cases : Dart.CaseMap) (uris : List Text) (trust : Hysteria2Trust) (tag : Text) : Parsed OutboundConfig :=
  if uris = [] then refuse "the share bundle".toList "has no importable URI at all, so there is nothing to connect with"
  else match firstOutbound cases trust tag uris with
    | .ok out => .ok out
    | .error refusals => refuse "the share bundle".toList ("none of its ".toList ++ decimal uris.length ++
        " URI(s) could be imported:\n".toList ++ "\n".toList.intercalate refusals)

end ShareUri

end VpnStack
