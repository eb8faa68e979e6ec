import ScriptHost.Text.Percent
import ScriptHost.Url.Basic
import ScriptHost.Url.Domain
import ScriptHost.Url.Ipv4
import ScriptHost.Url.Ipv6

/-!
# Reading a host

A host in brackets is an IPv6 address. In the special schemes any other host is
a domain or an IPv4 address after percent decoding; elsewhere it is kept as
it is written, with control characters and characters outside ASCII escaped.
-/

set_option autoImplicit false

namespace ScriptHost.Url.Host

def bracketed (inner : List Char) : Except Failure Host :=
  if inner.getLast? = some ']' then (Ipv6.address? inner.dropLast).map .ipv6 else .error .ipv6

def ofDomainText (text : List Char) : Except Failure Host :=
  match text with
  | '[' :: inner => bracketed inner
  | _ => do
    let domain ← Domain.ofBytes (Percent.decode text)
    if domain.isEmpty then .error .emptyHost
    else if Ipv4.endsInNumber domain then (Ipv4.address? domain).map .ipv4
    else .ok (.domain domain)

def forbidden : List Char := "\x00\t\n\r #/:<>?@[\\]^|".toList

/-- A host of any other scheme; an empty text is the empty host. -/
def ofPlainText (text : List Char) : Except Failure (Option Host) :=
  match text with
  | [] => .ok none
  | '[' :: inner => (bracketed inner).map some
  | _ =>
    if text.any forbidden.contains then .error .domainCharacter
    else .ok (some (.domain (Percent.encode .control text)))

end ScriptHost.Url.Host
