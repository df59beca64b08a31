import Arws.Server.RequestBuffer

/-!
# The body behind the head

`arws_build_http_request` copies as much of the body as there is room for, and returns what it has
then.  `arws_dispatch` gives it a buffer of 32768 bytes and sends a backend what is in it, with the
`Content-Length` that the client declared.

* `WholeBody` — what is built has all of the body, and as much of it as it declares.
* `wholeBody_iff` — that is so if the body fits where the head does, and the client sent as much as it
  declared.
* `not_wholeBody` — a body of 32768 bytes is cut, and the backend waits for the rest.
-/

set_option autoImplicit false

namespace Arws
namespace Server

open AppendBuffer CString

variable {bufsize : Nat} {clientIp : Bytes} {req : HttpRequest}

/-- The length that is written in the first `Content-Length` of the request that is built. -/
def sentLength (clientIp : Bytes) (req : HttpRequest) : Option Nat :=
  ((sentFields clientIp req).find? fun h => strcaseeq h.name (ascii "Content-Length")).bind fun h =>
    Http.decimal (Http.trim h.value)

/-- The length that the client declares. -/
def declaredByClient (req : HttpRequest) : Option Nat :=
  (getHeader req (ascii "Content-Length")).bind fun v => Http.decimal (Http.trim v)

/-- The body bytes in the buffer of the request. -/
def receivedBody (req : HttpRequest) : Bytes := req.body.take req.bodyLengthInBuffer.toNat

/-- **The body is never cut**: what is built fits with all of the body, and declares no more than that;
otherwise the request is refused. -/
def WholeBody (clientIp : Bytes) (req : HttpRequest) (bufsize : Nat) : Prop :=
  match arwsBuildHttpRequest clientIp req bufsize with
  | .error .failed => True
  | .error .undefined => False
  | .ok (head, body) => body = receivedBody req ∧ (head ++ body).length ≤ bufsize ∧
      ∀ n ∈ sentLength clientIp req, n ≤ body.length

theorem name_of_mem_behind {h : HttpHeader}
    (hh : h ∈ (sentFields clientIp req).drop req.headers.length) :
    h.name = ascii "Host" ∨ h.name = ascii "X-Forwarded-For" ∨ h.name = ascii "Connection" := by
  rw [sentFields, List.drop_left' (List.length_map _), List.mem_append, List.mem_cons] at hh
  obtain hh | rfl | hh := hh
  · split_ifs at hh
    · obtain rfl := List.mem_singleton.1 hh
      exact Or.inl rfl
    · exact absurd hh List.not_mem_nil
  · exact Or.inr (Or.inl rfl)
  · split_ifs at hh
    · exact absurd hh List.not_mem_nil
    · obtain rfl := List.mem_singleton.1 hh
      exact Or.inr (Or.inr rfl)

/-- The fields of the gateway declare no length. -/
theorem sentLength_eq (clientIp : Bytes) (req : HttpRequest) :
    sentLength clientIp req = declaredByClient req := by
  have hbehind : ((sentFields clientIp req).drop req.headers.length).find?
      (fun h => strcaseeq h.name (ascii "Content-Length")) = none := by
    refine List.find?_eq_none.2 fun h hh => ?_
    obtain hname | hname | hname := name_of_mem_behind hh <;> rw [hname] <;> decide +kernel
  rw [sentLength, sentFields_split, List.find?_append, hbehind, Option.or_none,
    find?_copied (by decide +kernel), declaredByClient, getHeader]
  cases req.headers.find? _ <;> rfl

theorem length_receivedBody (h : req.bodyLengthInBuffer ≤ req.body.length) :
    (receivedBody req).length = req.bodyLengthInBuffer.toNat := by
  rw [receivedBody, List.length_take]
  omega

/-- What is copied is all of the body, if there is room for it. -/
theorem copiedBody_eq_iff (h : req.bodyLengthInBuffer ≤ req.body.length) (rem : Nat) :
    copiedBody req rem = receivedBody req ↔ req.bodyLengthInBuffer.toNat ≤ rem := by
  rw [copiedBody]
  split_ifs with hbody
  · constructor
    · intro he
      have hlen := congrArg List.length he
      rw [length_receivedBody h, List.length_take] at hlen
      omega
    · intro hle
      rw [Nat.min_eq_left hle, receivedBody]
  · have hzero : req.bodyLengthInBuffer.toNat = 0 := by omega
    rw [receivedBody, hzero, List.take_zero]
    exact iff_of_true rfl (Nat.zero_le _)

/-- **The body is never cut** if and only if the head is written without a `Connection` field that is
cramped, and all of the body fits where the head does and is as long as the client declared. -/
theorem wholeBody_iff (h : req.bodyLengthInBuffer ≤ req.body.length) :
    WholeBody clientIp req bufsize ↔ ¬ Cramped req bufsize ∧
      ((wholeHead clientIp req).length < bufsize →
        (wholeHead clientIp req).length + req.bodyLengthInBuffer.toNat ≤ bufsize ∧
          ∀ n ∈ declaredByClient req, n ≤ req.bodyLengthInBuffer.toNat) := by
  have hfits := @exists_buildHead_iff bufsize clientIp req
  have hundefined := @buildHead_eq_undefined_iff bufsize clientIp req
  rw [WholeBody, arwsBuildHttpRequest]
  cases hhead : buildHead clientIp req bufsize with
  | ok head =>
    rw [hhead] at hfits hundefined
    have hlt := hfits.1 ⟨head, rfl⟩
    have hfree := mt hundefined.2 (by rintro ⟨⟩)
    have hwhole : head = wholeHead clientIp req := buildHead_eq_ok hhead
    change (copiedBody req (bufsize - head.length) = receivedBody req ∧
      (head ++ copiedBody req (bufsize - head.length)).length ≤ bufsize ∧
        ∀ n ∈ sentLength clientIp req, n ≤ (copiedBody req (bufsize - head.length)).length) ↔ _
    rw [sentLength_eq, and_iff_right hfree, hwhole]
    have hcopied := copiedBody_eq_iff h (bufsize - (wholeHead clientIp req).length)
    constructor
    · rintro ⟨hbody, -, hdeclared⟩ -
      rw [hbody, length_receivedBody h] at hdeclared
      have := hcopied.1 hbody
      exact ⟨by omega, hdeclared⟩
    · intro hall
      obtain ⟨hfit, hdeclared⟩ := hall hlt
      rw [hcopied.2 (by omega), List.length_append, length_receivedBody h]
      exact ⟨rfl, hfit, hdeclared⟩
  | error e =>
    rw [hhead] at hfits hundefined
    have hle := mt hfits.2 (by rintro ⟨_, ⟨⟩⟩)
    cases e with
    | failed => exact iff_of_true trivial ⟨mt hundefined.2 (by rintro ⟨⟩), fun hlt => absurd hlt hle⟩
    | undefined => exact iff_of_false id fun hall => hall.1 (hundefined.1 rfl)

private def postOf (headers : List HttpHeader) (body : Bytes) : HttpRequest :=
  ⟨ascii "POST", ascii "/", none, [], headers, [], body, body.length⟩

/-- A body that fits, of the length it is declared with. -/
theorem wholeBody_of_fits :
    WholeBody (ascii "9.9.9.9") (postOf [⟨ascii "Content-Length", ascii "2"⟩] (ascii "ab")) 32768 :=
  (wholeBody_iff (by rw [ascii_eq rfl]; decide)).2 (by decide)

/-- **A body of 32768 bytes is cut** to what is left behind the head, for a buffer as `arws_dispatch`
has it. -/
theorem not_wholeBody : ¬ ∀ clientIp req bufsize, req.bodyLengthInBuffer ≤ req.body.length →
    WholeBody clientIp req bufsize := by
  intro h
  have hcut : ∀ body : Bytes, body.length = 32768 → ¬ WholeBody (ascii "9.9.9.9")
      (postOf [⟨ascii "Content-Length", ascii "32768"⟩] body) 32768 := by
    intro body hbody
    -- the head is the same without the body
    have hfits : (wholeHead (ascii "9.9.9.9")
        (postOf [⟨ascii "Content-Length", ascii "32768"⟩] body)).length < 32768 :=
      show (wholeHead (ascii "9.9.9.9") (postOf [⟨ascii "Content-Length", ascii "32768"⟩] [])).length <
        32768 by decide +kernel
    obtain ⟨head, hhead⟩ := exists_buildHead_iff.2 hfits
    rw [WholeBody, arwsBuildHttpRequest, hhead]
    rintro ⟨hcopied, -⟩
    have hpos := length_buildHead_pos hhead
    have hlen : body.length ≤ 32768 - head.length := (copiedBody_eq_iff (Int.le_refl _) _).1 hcopied
    omega
  exact hcut (List.replicate 32768 97) List.length_replicate (h _ _ _ (Int.le_refl _))

end Server
end Arws
