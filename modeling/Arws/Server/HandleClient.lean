import Arws.Server.Connection

/-!
# Handling a client

`handle_client`, from the buffer its read loop leaves to the last call of whoever answers: the
address of the client is resolved, the identifier of the visitor is taken from the cookie or made,
the rate limit is checked, and `global_api_handler` is called.

`handleClient_related` — served in two sessions that are alike, a request leaves them alike.
-/

set_option autoImplicit false

namespace Arws
namespace Server

open CString

/-! ## The address of the client -/

/-- A number of a dotted address: at most 255, without a zero in front. -/
def octet (s : Bytes) : Option Nat :=
  if s ≠ [] ∧ s.all isDigit = true ∧ (s.head? = some 48 → s.length = 1) ∧ digitsValue s ≤ 255 then
    some (digitsValue s)
  else none

/-- `inet_pton(AF_INET, ..)`, in host order. -/
def inetPton (s : Bytes) : Option UInt32 :=
  match (s.splitOn 46).mapM octet with
  | some [a, b, c, d] => some (UInt32.ofNat (((a * 256 + b) * 256 + c) * 256 + d))
  | _ => none

structure TrustedNet where
  net : UInt32
  prefixLen : Nat

def TrustedNet.mask (t : TrustedNet) : UInt32 :=
  if t.prefixLen = 0 then 0 else 0xFFFFFFFF <<< UInt32.ofNat (32 - t.prefixLen)

/-- `ip_is_trusted_proxy`, over the list that was parsed. -/
def ipIsTrustedProxy (trusted : List TrustedNet) (peerIp : Bytes) : Bool :=
  match inetPton peerIp with
  | none => false
  | some ip => trusted.any fun t => ip &&& t.mask == t.net &&& t.mask

/-- `ip_looks_valid`. -/
def ipLooksValid (ip : Bytes) : Bool := (inetPton ip).isSome

/-- The first address of an `X-Forwarded-For` value. -/
def firstForwarded (xff : Bytes) : Bytes :=
  (((xff.dropWhile fun c => c == 32 || c == 9).take 63).takeWhile (· != 44)).takeWhile (0x20 ≤ ·)

/-- The address a trusted proxy says the request comes from. -/
def forwardedIp (behindCf : Bool) (req : HttpRequest) : Option Bytes :=
  if behindCf then (getHeader req (ascii "CF-Connecting-IP")).filter ipLooksValid
  else ((getHeader req (ascii "X-Forwarded-For")).map firstForwarded).filter ipLooksValid

/-- The address behind the proxies. -/
def resolvedIp (trusted : List TrustedNet) (behindCf : Bool) (req : HttpRequest) (peerIp : Bytes) :
    Bytes :=
  if ipIsTrustedProxy trusted peerIp then
    match forwardedIp behindCf req with
    | some ip => ip.take 63
    | none => peerIp
  else peerIp

/-! ## The identifier of the visitor -/

/-- `anon_id` behind the look at the cookie. -/
def readCookie (req : HttpRequest) (anonId : CharArray 65) : CharArray 65 :=
  let value := (getHeader req (ascii "Cookie")).bind fun cookie =>
    (strstr (ascii "ARC_ANON_ID=") cookie).map fun i => cookie.drop (i + 12)
  match value with
  | none => anonId
  | some value =>
    let anonId := CharArray.ofString 64 value
    match strchr 59 (cstr anonId.bytes) with
    | some semi => anonId.put semi 0
    | none => anonId

def hexDigit (c : UInt8) : UInt8 := if c < 10 then 48 + c else 87 + c

/-- `%02x` of each byte. -/
def hexText (raw : Vector UInt8 16) : Bytes :=
  raw.toList.flatMap fun (c : UInt8) => [hexDigit (c >>> 4), hexDigit (c &&& 15)]

def setCookieLine (anonId : Bytes) : Bytes :=
  ascii "Set-Cookie: ARC_ANON_ID=" ++ anonId ++
    ascii "; Path=/; HttpOnly; SameSite=Lax; Secure\r\n"

/-- A visitor without an identifier gets a random one, if there are random bytes. -/
def assignAnonId (random : Option (Vector UInt8 16)) (s : Session) : Option Session :=
  if s.conn.anonId.bytes.head? = some 0 then
    match random with
    | none => some s
    | some raw =>
      (s.conn.anonId.store 0 (hexText raw ++ [0])).bind fun anonId =>
        anonId.string?.bind fun id =>
          (s.conn.responseHeaders.appendText (setCookieLine id)).map fun responseHeaders =>
            { s with
              conn := { s.conn with anonId := anonId, responseHeaders := responseHeaders }
              setCookie := some id }
  else some s

/-! ## The request -/

/-- What every connection shares, and what the environment does while one is served. -/
structure Shared extends Outside where
  trustedProxies : List TrustedNet
  behindCf : Bool
  /-- What `RAND_bytes` or `/dev/urandom` yields. -/
  random : Option (Vector UInt8 16)
  /-- `arws_ratelimit_check` for an address, a host and a path. -/
  ratelimitCheck : Bytes → Bytes → Bytes → Bool
  /-- `global_api_handler`, over the tables it reads. -/
  apiHandler : Option (HttpRequest → Handler)

/-- A read loop that was left. -/
structure Received where
  state : ReadState
  reached : readMachine.Reach state
  left : state.phase ≠ .reading

/-- A connection that was accepted, with all its client does. -/
structure Job where
  mode : Mode
  clientIp : Bytes
  /-- `ar_ssl_new` yields an object. -/
  ssl : Bool
  /-- The handshake succeeds. -/
  handshake : Bool
  /-- The first buffer is allocated. -/
  buffer : Bool
  received : Received
  parse : ParseEnv

/-- What `handle_client` makes of what it received. -/
inductive Arrival
  /-- Nothing is answered. -/
  | dropped
  | undefined
  /-- An answer in plain text. -/
  | refused (status : Int) (text : Bytes)
  | request (fullPath : Bytes) (req : HttpRequest)
  deriving DecidableEq

def Job.arrival (job : Job) : Arrival :=
  if !job.buffer then .dropped
  else match job.received.state.phase with
    | .answered 413 => .refused 413 (ascii "Payload Too Large")
    | .answered _ => .refused 500 (ascii "Internal Server Error")
    | _ => match parseRequest job.parse job.received.state with
      | .closed => .dropped
      | .undefined => .undefined
      | .badRequest text => .refused 400 text
      | .request fullPath req => .request fullPath req

/-- The page of a refused client. -/
def tooManyRequests : Bytes := ascii
  ("<!DOCTYPE html><html><head><title>429 Too Many Requests</title></head>" ++
    "<body style='font-family:sans-serif;text-align:center;padding:50px;'>" ++
    "<h1>429 Too Many Requests</h1>" ++
    "<p>Voce atingiu o limite de requisicoes. Por favor, aguarde alguns segundos.</p>" ++
    "</body></html>")

/-- One answer and no more. -/
def answerWith (status : Int) (contentType text : Bytes) : Handler :=
  .call (.sendResponse status contentType (some text)) fun _ => .done

/-- The record of the connection when the request is taken apart. -/
def identify (env : Shared) (fullPath : Bytes) (req : HttpRequest) (s : Session) : Option Session :=
  assignAnonId env.random
    { s with conn := { s.conn with
        currentPath := fullPath.take 255
        clientIp := resolvedIp env.trustedProxies env.behindCf req s.conn.clientIp
        anonId := readCookie req s.conn.anonId } }

/-- Who answers the request of a client at an address. -/
def respond (env : Shared) (clientIp : Bytes) (req : HttpRequest) : Handler :=
  if !env.ratelimitCheck clientIp req.host req.path then
    answerWith 429 (ascii "text/html") tooManyRequests
  else match env.apiHandler with
    | some handler => handler req
    | none => answerWith 404 (ascii "text/plain") (ascii "Not Found")

def Handler.runIn (handler : Handler) (env : Shared) (s : Session) : Option Session :=
  handler.run (Call.perform env.toOutside) s

/-- `handle_client`. -/
def handleClient (env : Shared) (job : Job) (s : Session) : Option Session :=
  match job.arrival with
  | .dropped => some s
  | .undefined => none
  | .refused status text => (answerWith status (ascii "text/plain") text).runIn env s
  | .request fullPath req =>
    (identify env fullPath req s).bind fun s => (respond env s.conn.clientIp req).runIn env s

/-- Neither the parser nor the handler reads out of bounds: `body_start` is in the buffer, and no
file is served under a header block that does not fit. -/
def InBounds (env : Shared) (job : Job) (s : Session) : Prop :=
  match job.arrival with
  | .undefined => False
  | .request fullPath req => ∀ s' ∈ identify env fullPath req s,
    (respond env s'.conn.clientIp req).Safe (Call.perform env.toOutside)
      (Call.InBounds env.toOutside) s'
  | _ => True

/-! ## Two sessions that are alike -/

theorem length_hexText (raw : Vector UInt8 16) : (hexText raw).length = 32 := by
  simp [hexText]

theorem readCookie_alike (req : HttpRequest) {a b : CharArray 65} (h : a.Alike b) :
    (readCookie req a).Alike (readCookie req b) := by
  rw [readCookie, readCookie]
  split
  · exact h
  · -- the whole array is written
    rename_i value _
    have hzero := CharArray.zero_mem_ofString 64 value
    simp only
    split
    · exact CharArray.alike_self (CharArray.zero_mem_put hzero _)
    · exact CharArray.alike_self hzero

theorem Session.Agree.assignAnonId {s t : Session} (h : s.Agree t)
    (random : Option (Vector UInt8 16)) :
    BothYield Session.Agree (assignAnonId random s) (assignAnonId random t) := by
  simp only [Server.assignAnonId]
  by_cases hempty : s.conn.anonId.bytes.head? = some 0
  · rw [if_pos hempty, if_pos (h.conn.anonId.head?_iff.1 hempty)]
    cases random with
    | none => exact .some h
    | some raw =>
      obtain ⟨id, hs, ht⟩ := h.conn.anonId
      obtain rfl := (CharArray.head?_eq_zero_iff hs).1 hempty
      have hfit : ([] : Bytes).length + (hexText raw).length + 1 ≤ 65 := by
        rw [length_hexText]
        decide
      obtain ⟨a, ha, has⟩ := CharArray.string?_store hs hfit
      obtain ⟨b, hb, hbs⟩ := CharArray.string?_store ht hfit
      obtain ⟨headers, headers', hh, hh', halike⟩ :=
        h.conn.responseHeaders.appendText (setCookieLine ([] ++ cstr (hexText raw)))
      simp only [List.length_nil] at ha hb
      simp only [ha, hb, has, hbs, hh, hh', Option.bind_some, Option.map_some]
      exact .some ⟨⟨h.conn.mode, h.conn.ssl, h.conn.clientIp, h.conn.currentPath, halike,
        ⟨_, has, hbs⟩⟩, h.sent, h.log, rfl⟩
  · rw [if_neg hempty, if_neg fun he => hempty (h.conn.anonId.head?_iff.2 he)]
    exact .some h

theorem Session.Agree.identify {s t : Session} (h : s.Agree t) (env : Shared) (fullPath : Bytes)
    (req : HttpRequest) :
    BothYield Session.Agree (identify env fullPath req s) (identify env fullPath req t) := by
  rw [Server.identify, Server.identify, h.conn.clientIp]
  refine Session.Agree.assignAnonId ?_ env.random
  exact ⟨⟨h.conn.mode, h.conn.ssl, rfl, rfl, h.conn.responseHeaders,
    readCookie_alike req h.conn.anonId⟩, h.sent, h.log, h.setCookie⟩

theorem safe_answerWith {out : Outside} (status : Int) (contentType text : Bytes) (s : Session) :
    (answerWith status contentType text).Safe (Call.perform out) (Call.InBounds out) s :=
  ⟨trivial, fun _ _ => trivial⟩

/-- What the server answers by itself is in bounds. -/
theorem inBounds_of_no_handler {env : Shared} {job : Job} (henv : env.apiHandler = none)
    (hjob : job.arrival ≠ .undefined) (s : Session) : InBounds env job s := by
  rw [InBounds]
  split
  · rename_i h
    exact hjob h
  · intro s' _
    rw [respond, henv]
    split_ifs
    · exact safe_answerWith _ _ _ _
    · exact safe_answerWith _ _ _ _
  · trivial

theorem runIn_answerWith (env : Shared) (status : Int) (contentType text : Bytes) (s : Session) :
    (answerWith status contentType text).runIn env s =
      serverSendResponse env.toOutside s status contentType (some text) := by
  simp only [answerWith, Handler.runIn, Program.run, Call.perform]
  cases serverSendResponse env.toOutside s status contentType (some text) <;> rfl

/-- **A request is handled alike in two sessions that are alike.** -/
theorem handleClient_related {env : Shared} {job : Job} {s t : Session} (h : s.Agree t)
    (hin : InBounds env job s) :
    BothYield Session.Agree (handleClient env job s) (handleClient env job t) := by
  rw [InBounds] at hin
  rw [handleClient, handleClient]
  cases harrival : job.arrival with
  | dropped => exact .some h
  | undefined =>
    rw [harrival] at hin
    exact hin.elim
  | refused status text =>
    exact Program.run_related (fun _ _ _ h hok => Session.perform_related h hok) h
      (safe_answerWith _ _ _ _)
  | request fullPath req =>
    rw [harrival] at hin
    obtain ⟨s', t', hs, ht, h'⟩ := h.identify env fullPath req
    simp only [hs, ht, Option.bind_some, ← h'.conn.clientIp]
    exact Program.run_related (fun _ _ _ h hok => Session.perform_related h hok) h' (hin s' hs)

/-- Out of bounds there is no result. -/
theorem handleClient_eq_none {env : Shared} {job : Job} {s : Session}
    (h : ¬ InBounds env job s) : handleClient env job s = none := by
  rw [InBounds] at h
  rw [handleClient]
  cases harrival : job.arrival with
  | undefined => rfl
  | request fullPath req =>
    simp only [harrival, not_forall] at h
    obtain ⟨s', hs, hnot⟩ := h
    simp only [Option.mem_def.1 hs, Option.bind_some]
    have hcall : ∀ c s, ¬ Call.InBounds env.toOutside c s → c.perform env.toOutside s = none :=
      fun _ _ => perform_eq_none
    exact Program.run_eq_none_of_not_safe hcall hnot
  | dropped => simp only [harrival, not_true] at h
  | refused status text => simp only [harrival, not_true] at h

end Server
end Arws
