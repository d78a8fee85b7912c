import WireStore.Address
import WireStore.Error
import WireStore.Frame.Limits

/-!
# Server settings

What a server is started with. Every combination is accepted except one that
allows no header line at all.
-/

namespace WireStore

/-- The settings of a server. -/
structure Config where
  /-- Where connections are awaited; port zero leaves the choice of a port open. -/
  listenAddress : Address := ⟨.loopback, 5000⟩
  /-- Whether small replies are sent without delay. -/
  noDelay : Bool := true
  /-- How long a silent client is waited for, in milliseconds; zero is for ever. -/
  readTimeout : Nat := 0
  /-- How long a client that reads nothing is waited for; zero is for ever. -/
  writeTimeout : Nat := 0
  /-- The limits on requests. -/
  limits : Limits := {}
  deriving DecidableEq, Repr

namespace Config

/-- Refuses settings with which no request could be read. -/
def validate (config : Config) : Except Error Unit :=
  if config.limits.maxHeaderLength = 0 then
    .error (.configuration "max_header_len must be > 0")
  else .ok ()

theorem validate_eq_ok_iff {config : Config} :
    config.validate = .ok () ↔ 0 < config.limits.maxHeaderLength := by
  unfold validate
  split
  · simp_all
  · simp only [true_iff]
    omega

end Config

end WireStore
