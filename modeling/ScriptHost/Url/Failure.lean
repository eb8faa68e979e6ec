/-!
# Why a text is not an identifier
-/

set_option autoImplicit false

namespace ScriptHost.Url

inductive Failure where
  | emptyHost
  | internationalDomain
  | port
  | ipv4
  | ipv6
  | domainCharacter
  | noBase
  | rootlessBase
  deriving DecidableEq, Repr

def Failure.message : Failure → String
  | .emptyHost => "empty host"
  | .internationalDomain => "invalid international domain name"
  | .port => "invalid port number"
  | .ipv4 => "invalid IPv4 address"
  | .ipv6 => "invalid IPv6 address"
  | .domainCharacter => "invalid domain character"
  | .noBase => "relative URL without a base"
  | .rootlessBase => "relative URL with a cannot-be-a-base base"

end ScriptHost.Url
