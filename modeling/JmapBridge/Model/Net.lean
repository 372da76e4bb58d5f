import JmapBridge.Effect.Triple
import JmapBridge.Model.Types

/-! Fetching a URL that an attacker may have chosen: the addresses that may be dialled, the
check of a URL, and the redirects. -/

namespace JmapBridge

open Effect

structure Ipv4Addr where
  a : UInt8
  b : UInt8
  c : UInt8
  d : UInt8
deriving DecidableEq, Repr

namespace Ipv4Addr

def isLoopback (ip : Ipv4Addr) : Bool := ip.a == 127

def isPrivate (ip : Ipv4Addr) : Bool :=
  ip.a == 10 || (ip.a == 172 && 16 ≤ ip.b && ip.b ≤ 31) || (ip.a == 192 && ip.b == 168)

def isLinkLocal (ip : Ipv4Addr) : Bool := ip.a == 169 && ip.b == 254

def isUnspecified (ip : Ipv4Addr) : Bool := ip == ⟨0, 0, 0, 0⟩

def isBroadcast (ip : Ipv4Addr) : Bool := ip == ⟨255, 255, 255, 255⟩

def isMulticast (ip : Ipv4Addr) : Bool := 224 ≤ ip.a && ip.a ≤ 239

def isDocumentation (ip : Ipv4Addr) : Bool :=
  (ip.a == 192 && ip.b == 0 && ip.c == 2) || (ip.a == 198 && ip.b == 51 && ip.c == 100) ||
    (ip.a == 203 && ip.b == 0 && ip.c == 113)

end Ipv4Addr

/-- The eight segments of an address. -/
structure Ipv6Addr where
  first : UInt16
  second : UInt16
  third : UInt16
  fourth : UInt16
  fifth : UInt16
  sixth : UInt16
  seventh : UInt16
  eighth : UInt16
deriving DecidableEq, Repr

namespace Ipv6Addr

def isLoopback (ip : Ipv6Addr) : Bool := ip == ⟨0, 0, 0, 0, 0, 0, 0, 1⟩

def isUnspecified (ip : Ipv6Addr) : Bool := ip == ⟨0, 0, 0, 0, 0, 0, 0, 0⟩

def isMulticast (ip : Ipv6Addr) : Bool := ip.first &&& 0xff00 == 0xff00

def toIpv4Mapped (ip : Ipv6Addr) : Option Ipv4Addr :=
  if ip = ⟨0, 0, 0, 0, 0, 0xffff, ip.seventh, ip.eighth⟩ then
    some ⟨(ip.seventh >>> 8).toUInt8, ip.seventh.toUInt8, (ip.eighth >>> 8).toUInt8,
      ip.eighth.toUInt8⟩
  else none

end Ipv6Addr

inductive IpAddr where
  | v4 (ip : Ipv4Addr)
  | v6 (ip : Ipv6Addr)
deriving DecidableEq, Repr

def isPublicV4 (ip : Ipv4Addr) : Bool :=
  !(ip.isLoopback || ip.isPrivate || ip.isLinkLocal || ip.isUnspecified || ip.isBroadcast ||
    ip.isMulticast || ip.isDocumentation ||
    -- carrier-grade NAT, 100.64.0.0/10
    (ip.a == 100 && ip.b &&& 0xc0 == 64))

def isPublic : IpAddr → Bool
  | .v4 ip => isPublicV4 ip
  | .v6 ip =>
    match ip.toIpv4Mapped with
    | some mapped => isPublicV4 mapped
    | none =>
      !(ip.isLoopback || ip.isUnspecified || ip.isMulticast ||
        -- unique-local, fc00::/7, and link-local, fe80::/10
        ip.first &&& 0xfe00 == 0xfc00 || ip.first &&& 0xffc0 == 0xfe80)

/-- The parser of URLs. -/
structure UrlParser (Url : Type) where
  parse : String → Option Url
  join : Url → String → Option Url
  scheme : Url → String
  hostStr : Url → Option String
  portOrKnownDefault : Url → Option Nat

/-- `location` is the header of that name where it is there and is text. -/
structure Response where
  status : Nat
  location : Option String := none
deriving DecidableEq, Repr

def Response.isRedirection (r : Response) : Bool := 300 ≤ r.status && r.status < 400

inductive NetCmd (Url : Type) where
  | buildClient
  | lookupHost (host : String) (port : Nat)
  | get (url : Url)

@[reducible] def NetCmd.Ans {Url : Type} : NetCmd Url → Type
  | buildClient => Bool
  | lookupHost _ _ => Option (List IpAddr)
  | get _ => Except Err Response

inductive NetOp (Url : Type) : Type → Type where
  | mk (c : NetCmd Url) : NetOp Url c.Ans

/-- A connection resolves the host again, to `resolved`, and dials one of the addresses; the
request then has a response, or fails. -/
inductive NetAnswer where
  | done
  | failed
  | addresses (ips : List IpAddr)
  | connected (resolved : List IpAddr) (dialled : IpAddr) (response : Option Response)
deriving DecidableEq, Repr

structure NetRecord (Url : Type) where
  task : Nat
  cmd : NetCmd Url
  answer : NetAnswer

/-- The newest record of `trace` is its first. -/
structure NetWorld (Url : Type) where
  trace : List (NetRecord Url) := []

variable {Url : Type}

def NetCmd.run : (c : NetCmd Url) → NetAnswer → Option c.Ans
  | buildClient, .done => some true
  | buildClient, .failed => some false
  | lookupHost _ _, .addresses ips => some (some ips)
  | lookupHost _ _, .failed => some none
  | get _, .connected resolved dialled response =>
    if dialled ∈ resolved then
      some (match response with
        | some r => .ok r
        | none => .error .http)
    else none
  | get _, .failed => some (.error .http)
  | _, _ => none

def netExec (t : Nat) {β : Type} :
    NetOp Url β → NetAnswer → NetWorld Url → Option (β × NetWorld Url)
  | .mk c, a, w => (c.run a).map fun b => (b, { w with trace := ⟨t, c, a⟩ :: w.trace })

abbrev Fetch (Url : Type) := Act (NetOp Url) Err

def onNet (c : NetCmd Url) : Prog (NetOp Url) c.Ans := Prog.call (.mk c)

/-- One address that is not public is enough to reject the host. -/
def ensurePublic (host : String) (ips : List IpAddr) : Fetch Url Unit :=
  if ips.all isPublic then
    if ips.isEmpty then .fail (.context s!"host {host} did not resolve to any address") else .ok ()
  else .fail (.context "URL host resolves to a non-public address")

def assertPublicUrl (parser : UrlParser Url) (url : Url) : Fetch Url Unit :=
  if parser.scheme url = "http" ∨ parser.scheme url = "https" then
    match parser.hostStr url with
    | none => .fail (.context "URL has no host")
    | some host => do
      match ← Act.lift (onNet (.lookupHost host ((parser.portOrKnownDefault url).getD 80))) with
      | none => .fail (.context s!"could not resolve host {host}")
      | some ips => ensurePublic host ips
  else .fail (.context s!"unsupported URL scheme: {parser.scheme url}")

/-- Where a redirect leads. -/
def nextUrl (parser : UrlParser Url) (url : Url) (response : Response) : Fetch Url Url :=
  match response.location with
  | none => .fail (.context "redirect without a valid Location header")
  | some location => Act.ofOption (.context "invalid redirect Location") (parser.join url location)

/-- The first `n` hops from `url`. -/
def getFollowing (parser : UrlParser Url) : Nat → Url → Fetch Url Response
  | 0, _ => .fail (.context "too many redirects")
  | n + 1, url => do
    assertPublicUrl parser url
    let response ← Act.call (.mk (.get url))
    if response.isRedirection then do
      let next ← nextUrl parser url response
      getFollowing parser n next
    else pure response

def safeGet (parser : UrlParser Url) (url : String) (maxRedirects : UInt8) :
    Fetch Url Response := do
  if ← Act.lift (onNet .buildClient) then
    let first ← Act.ofOption (.context "invalid URL") (parser.parse url)
    getFollowing parser (maxRedirects.toNat + 1) first
  else .fail (.context "failed to build HTTP client")

structure FetchCall where
  url : String
  maxRedirects : UInt8

/-- Any number of fetches, each at its own pace. -/
def netSystem (parser : UrlParser Url) (calls : Nat → FetchCall) :
    System (NetOp Url) (NetWorld Url) NetAnswer Empty where
  exec := netExec
  env e _ := e.elim
  drop _ w := w
  entry t := Prog.bind (safeGet parser (calls t).url (calls t).maxRedirects) fun _ => .pure ()

theorem netExec_mk {t : Nat} {c : NetCmd Url} {a : NetAnswer} {b : c.Ans} {w w' : NetWorld Url}
    (h : netExec t (.mk c) a w = some (b, w')) :
      c.run a = some b ∧ w' = ⟨⟨t, c, a⟩ :: w.trace⟩ := by
  obtain ⟨b₁, hb, he⟩ := Option.map_eq_some_iff.mp h
  obtain ⟨rfl, rfl⟩ := Prod.mk.inj he
  exact ⟨hb, rfl⟩

theorem run_lookupHost {host : String} {port : Nat} {a : NetAnswer} {ips : List IpAddr}
    (h : (NetCmd.lookupHost host port : NetCmd Url).run a = some (some ips)) :
      a = .addresses ips := by
  cases a with
  | addresses l =>
    obtain rfl := Option.some.inj (Option.some.inj h)
    rfl
  | failed => cases Option.some.inj h
  | _ => cases h

end JmapBridge
