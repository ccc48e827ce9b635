import VpnStack.Protocols.Basic
import VpnStack.Lib.Base64
import VpnStack.Lib.Script
import VpnStack.Lib.Transition

/-!
# The day the keyring is made

`bootstrap.bootstrap_keyring`: for each protocol the secrets it lacks, a whole protocol at a time; with what the protocols
mint, `reality_key.py`, and the file operations of `secrets_store.write`. A run may be killed in front of any of its calls,
and any of them may raise.
-/

namespace VpnStack

open Python Interaction

/-! ## `reality_key.py` -/

/-- X25519: the public half of a private key. Both are 32 bytes. -/
structure X25519 where
  publicKey : Bytes → Bytes
  length_publicKey : ∀ b, (publicKey b).length = 32

namespace RealityKey

/-- The encoding of a private key that was generated. -/
def generatePrivateKey (raw : Bytes) : Text := Base64.urlEncode raw

/-- `from_private_bytes` takes 32 bytes and nothing else. -/
def derivePublicKey (x : X25519) (privateKey : Text) : Except Exc Text :=
  match Base64.urlDecode privateKey with
  | none => .error .valueError
  | some raw => if raw.length = 32 then .ok (Base64.urlEncode (x.publicKey raw)) else .error .valueError

/-- A generated key has a public half. -/
theorem derivePublicKey_generated (x : X25519) {raw : Bytes} (h : raw.length = 32) :
    derivePublicKey x (generatePrivateKey raw) = .ok (Base64.urlEncode (x.publicKey raw)) := by
  rw [derivePublicKey, generatePrivateKey, Base64.urlDecode_urlEncode]
  exact if_pos h

/-- A public half is 43 digits. -/
theorem derivePublicKey_eq_ok {x : X25519} {key pub : Text} (h : derivePublicKey x key = .ok pub) :
    ∃ raw : Bytes, raw.length = 32 ∧ pub = Base64.urlEncode raw := by
  unfold derivePublicKey at h
  split at h
  · nomatch h
  · rename_i raw _
    split at h
    · exact ⟨x.publicKey raw, x.length_publicKey raw, (Except.ok.inj h).symm⟩
    · nomatch h

end RealityKey

/-! ## What is minted -/

/-- The elliptic curve keys and their self-signed certificates: `Γ` is what one generation is made of. -/
structure Certificates (Γ : Type) where
  certificate : Γ → Bytes
  privateKey : Γ → Bytes
  certificate_ne : ∀ g, certificate g ≠ []
  privateKey_ne : ∀ g, privateKey g ≠ []

/-- `cryptography`. -/
structure Crypto (Γ : Type) where
  x25519 : X25519
  certificates : Certificates Γ

/-- The random bytes of one `bootstrap`. -/
structure Entropy (Γ : Type) where
  realityKey : Bytes
  realityShortId : Bytes
  generation : Γ
  hysteria2Obfs : Bytes
  ipsecPsk : Bytes
  ipsecPrimaryUser : Bytes
  ipsecPrimaryPassword : Bytes
  length_realityKey : realityKey.length = 32
  tokens_ne : ∀ b ∈ [realityShortId, hysteria2Obfs, ipsecPsk, ipsecPrimaryUser, ipsecPrimaryPassword], b ≠ []

namespace Bootstrap

/-- `token_hex(n).encode()`. -/
def tokenHex (b : Bytes) : Bytes := Text.encode (Hex.encode Hex.lower b)

/-- The part of a `Protocol` that bootstrap uses: what it mints, and what can be rebuilt. -/
structure Source (Γ : Type) where
  name : String
  bootstrap : Entropy Γ → Except Exc (List (String × Bytes))
  derivable : List (String × (Secrets → Except Exc Bytes))

variable {Γ : Type} (crypto : Crypto Γ)

/-- `vless_reality`: both halves of the key come out of one call. -/
def vlessReality : Source Γ where
  name := "vless-reality"
  bootstrap e := do
    let private_ := RealityKey.generatePrivateKey e.realityKey
    let pub ← RealityKey.derivePublicKey crypto.x25519 private_
    return [("reality.key", Text.encode private_), ("reality.pub", Text.encode pub),
      ("reality.short_id", tokenHex e.realityShortId)]
  derivable := [("reality.pub", fun have_ => do
    let key ← have_.text "reality.key"
    let pub ← RealityKey.derivePublicKey crypto.x25519 key
    return Text.encode pub)]

/-- `hysteria2`. -/
def hysteria2 : Source Γ where
  name := "hysteria2"
  bootstrap e := .ok [("hysteria2.crt", crypto.certificates.certificate e.generation),
    ("hysteria2.key", crypto.certificates.privateKey e.generation), ("hysteria2.obfs", tokenHex e.hysteria2Obfs)]
  derivable := []

/-- `ikev2`. -/
def ikev2 : Source Γ where
  name := "ikev2"
  bootstrap e := .ok [("ipsec.psk", tokenHex e.ipsecPsk), ("ipsec.primary_user", tokenHex e.ipsecPrimaryUser),
    ("ipsec.primary_password", tokenHex e.ipsecPrimaryPassword)]
  derivable := []

/-- `dnstt` has nothing to mint; its key is `prepare`'s. -/
def dnstt : Source Γ where
  name := "dnstt"
  bootstrap _ := .ok []
  derivable := []

/-- `protocols.ordered()`. -/
def sources : List (Source Γ) := [vlessReality crypto, hysteria2 crypto, ikev2, dnstt]

/-! ## `secrets_store` -/

/-- The directory of the keyring: each secret's file, and the temporary beside it. -/
structure Keyring where
  files : String → Option Bytes := fun _ => none
  temps : String → Option Bytes := fun _ => none

/-- What `load` reads: an empty file is not a secret, and neither is a temporary. -/
def Keyring.secrets (w : Keyring) : Secrets where
  values name := (w.files name).filter fun b => !b.isEmpty

inductive Op where
  | load
  | mkdir
  /-- The random bytes the next protocol's `bootstrap` takes. -/
  | mint
  | openTmp (name : String)
  | fill (name : String) (content : Bytes)
  | replace (name : String)
  | unlinkTmp (name : String)

@[reducible] def Answer (Γ : Type) : Op → Type
  | .load => Secrets
  | .mint => Entropy Γ
  | _ => Unit

structure Choice (Γ : Type) where
  fault : Fault Exc := .none
  entropy : Entropy Γ

/-- What a call does. -/
def exec : (o : Op) → Choice Γ → Keyring → Answer Γ o × Keyring
  | .load, _, w => (w.secrets, w)
  | .mkdir, _, w => ((), w)
  | .mint, c, w => (c.entropy, w)
  | .openTmp name, _, w => ((), { w with temps := Function.update w.temps name (some []) })
  | .fill name content, _, w => ((), { w with temps := Function.update w.temps name (some content) })
  | .replace name, _, w =>
    match w.temps name with
    | some content => ((), { files := Function.update w.files name (some content), temps := Function.update w.temps name none })
    | none => ((), w)
  | .unlinkTmp name, _, w => ((), { w with temps := Function.update w.temps name none })

/-- The directory as a machine. -/
def disk : ScriptMachine Exc Op (Answer Γ) Keyring (Choice Γ) := withFaults exec Choice.fault

abbrev Run (Γ α : Type) := Script Exc Op (Answer Γ) α

abbrev call (o : Op) : Run Γ (Answer Γ o) := Script.op o

/-- `write`. -/
def write (name : String) (content : Bytes) : Run Γ Unit := do
  call (.openTmp name)
  let _ ← Script.tryFinally (do call (.fill name content); call (.replace name)) (call (.unlinkTmp name))

/-! ## `bootstrap_keyring` -/

/-- `_heal`: a derivation that raises leaves its gap a gap. -/
def heal (derivable : List (String × (Secrets → Except Exc Bytes))) (gaps : List String) (have_ : Secrets) :
    Run Γ (List String) :=
  gaps.foldlM (fun healed name =>
    match derivable.lookup name with
    | none => pure healed
    | some derive =>
      match derive have_ with
      | .error _ => pure healed
      | .ok content => do
        write name content
        return healed ++ [name]) []

/-- What the loop over the protocols has done so far. -/
structure Progress where
  written : List String := []
  derived : List String := []
  kept : List String := []
  refused : List String := []

/-- The turn of one protocol. -/
def protocol (force : Bool) (existing : Secrets) (progress : Progress) (proto : Source Γ) : Run Γ Progress := do
  let entropy : Entropy Γ ← call .mint
  let produced ← Script.lift (proto.bootstrap entropy)
  let names := produced.map (·.1)
  let have_ := names.filter existing.has
  if have_ ≠ [] ∧ force = false then do
    let gaps := names.filter fun n => !existing.has n
    let healed ← heal proto.derivable gaps existing
    let left := gaps.filter (· ∉ healed)
    let refused := if left = [] then [] else [proto.name ++ " (missing " ++ ", ".intercalate left ++ ")"]
    return { progress with
      derived := progress.derived ++ healed
      kept := progress.kept ++ have_
      refused := progress.refused ++ refused }
  else do
    produced.forM fun secret => write secret.1 secret.2
    return { progress with written := progress.written ++ names }

/-- The refusal to top up a set that is half there. -/
def keyringRefused (refused : List String) : Exc :=
  .keyringRefused ["NOT refilled: ", "; ".intercalate refused, ". A half-present set is left alone rather than topped up: ",
    "filling the gap pairs a fresh half with the stale one that survived, which renders, serves, and fails on every ",
    "client. Restore the missing file from a backup, or `--force` to regenerate the whole set -- that invalidates every ",
    "exported profile."] refused

/-- `sorted` of the names of secrets. -/
def sortedSecrets (names : List String) : List String := names.insertionSort (· ≤ ·)

/-- What it says it did. -/
def report (done : Progress) : Message :=
  if done.written = [] ∧ done.derived = [] then
    ["keyring already complete (", toString done.kept.length, " secrets), nothing generated. ",
      "Use --force to regenerate -- that invalidates every exported profile."]
  else
    let generated := "generated " ++ toString done.written.length ++ " secret(s): " ++
      ", ".intercalate (sortedSecrets done.written)
    let rebuilt := "rebuilt " ++ toString done.derived.length ++ " secret(s) from surviving material: " ++
      ", ".intercalate (sortedSecrets done.derived) ++ " -- no client credential changed"
    let parts := (if done.written = [] then [] else [generated]) ++ (if done.derived = [] then [] else [rebuilt])
    let kept := if done.kept = [] then "" else " (kept " ++ toString done.kept.length ++ " existing)"
    ["; ".intercalate parts ++ kept]

/-- `bootstrap_keyring`: whether a new credential was minted, and what happened. -/
def bootstrapKeyring (force : Bool) : Run Γ (Bool × Message) := do
  let existing : Secrets ← call .load
  call .mkdir
  let done ← (sources crypto).foldlM (protocol force existing) {}
  if done.refused ≠ [] then Script.raise (keyringRefused done.refused)
  else return (decide (done.written ≠ []), report done)

/-- A run of `bootstrap`, with `--force` or without, and what it meets at each of its calls. -/
def step (w : Keyring) (a : Bool × List (Choice Γ)) : Option Keyring :=
  some ((bootstrapKeyring crypto a.1).run disk a.2 w).2

end Bootstrap

end VpnStack
