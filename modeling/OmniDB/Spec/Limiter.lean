import OmniDB.Spec.Rows
import OmniDB.Tx.Windows

/-! The limiters of logins, activations and leases, `app/auth/ratelimit.py`. They count in one Redis
store, which all processes share. -/

namespace OmniDB.Limiter

open Tx

def seconds (n : ℤ) : Time := n * 1000000

/-- `_WINDOW_SECONDS`. -/
def windowSeconds : ℤ := 900
def accountLimit : ℕ := 10
def sourceLimit : ℕ := 500
def globalLimit : ℕ := 5000
def activationSourceLimit : ℕ := 50
def activationGlobalLimit : ℕ := 500
def workLeaseLimit : ℕ := 300

structure Env where
  /-- `_digest`, the hex digest of SHA-256. -/
  digest : String → String
  /-- `get_settings().app_env == "production"`. -/
  production : Bool

abbrev Redis := Counters String Time
abbrev Request := Command String Time

section Functions

variable (env : Env)

/-- `_key`. -/
def key (signal value : String) (space : String := "login_attempts") : String :=
  space ++ ":" ++ signal ++ ":" ++ env.digest value

/-- `_increment`: the script on the server, and the limit here. -/
def increment (key : String) (limit : ℕ) : ExceptT Unit (Talk Request ℕ) Bool := do
  let count ← Talk.send (.hit key (seconds windowSeconds))
  return count ≤ limit

/-- `source or "unknown"`. -/
def known (source : Option String) : String := (source.filter (· ≠ "")).getD "unknown"

/-- `check_and_increment`. -/
def checkAndIncrement (account : String) (source : Option String) : Talk Request ℕ Bool :=
  .rescue (!env.production) do
    let byAccount ← increment (key env "account" account) accountLimit
    let bySource ← increment (key env "source" (known source)) sourceLimit
    let overall ← increment "login_attempts:global" globalLimit
    return byAccount && bySource && overall

/-- `reset_account`. -/
def resetAccount (account : String) : Talk Request ℕ Unit :=
  .rescue () do
    let _ ← Talk.send (.clear (key env "account" account))

/-- `check_and_increment_work_lease`. -/
def checkAndIncrementWorkLease (agentId : String) : Talk Request ℕ Bool :=
  .rescue (!env.production) (increment (key env "agent" agentId "work_lease_attempts") workLeaseLimit)

/-- `check_and_increment_activation`. -/
def checkAndIncrementActivation (source : Option String) : Talk Request ℕ Bool :=
  .rescue (!env.production) do
    let bySource ← increment (key env "source" (known source) "activation_attempts") activationSourceLimit
    let overall ← increment "activation_attempts:global" activationGlobalLimit
    return bySource && overall

/-- A call of the limiter; `reset_account` answers nothing. -/
inductive Op where
  | login (account : String) (source : Option String)
  | reset (account : String)
  | workLease (agentId : String)
  | activation (source : Option String)
deriving DecidableEq

def body : Op → Talk Request ℕ (Option Bool)
  | .login account source => some <$> checkAndIncrement env account source
  | .reset account => (fun _ => none) <$> resetAccount env account
  | .workLease agentId => some <$> checkAndIncrementWorkLease env agentId
  | .activation source => some <$> checkAndIncrementActivation env source

end Functions

/-- The calls in progress, and what they have asked of Redis. -/
abbrev Calls := Exchange Redis Time Request ℕ (Option Bool) Op

/-- The states that any interleaving of calls reaches from an empty store. -/
abbrev Reaches (env : Env) (E : Expiry Time) (t₀ : Time) (s : Calls) : Prop :=
  Exchange.Reaches (Counters.answer E) (body env) { store := fun _ => none, now := t₀ } s

end OmniDB.Limiter
