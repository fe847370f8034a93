import KmsCluster.AppKey

/-!
# The freshness window of signed requests

The timestamp check that `authenticate` (`src/auth.rs`), `app_key_inner` and `handle_refresh`
(`src/server.rs`) begin with, and a model of `handle_refresh`. Each check subtracts and takes the
absolute value in `i64`, where both can wrap.

## Main results

- `tooFarFromNow_eq_false`: which timestamps the wrapped comparison lets pass.
- `freshness_exact_iff`: for which timestamps each of the three handlers keeps to the window.
- `distant_past_passes`: a timestamp 2^63 seconds ago that all three take for fresh.
-/

namespace KmsCluster.Freshness

open AppKey Fallible

-- ════════════════════════════════════════════════════════════════════════
-- The `/refresh` endpoint
-- ════════════════════════════════════════════════════════════════════════

/-- The body of a refresh request. -/
structure RefreshRequest where
  timestamp : ℤ
  signature : String

/-- What the calls a refresh awaits return. -/
structure RefreshEnv where
  /-- `get_app_owner` of the node's own app. -/
  appOwner : Except KmsError Address
  triggerRefresh : Except String Unit

section Endpoint

variable {Sig : Type} (S : Secp Sig)

/-- `handle_refresh` from the signature on. -/
def refreshSigned (env : RefreshEnv) (appId : String) (req : RefreshRequest) :
    Except KmsError (ℕ × String) := do
  let recovered ← recoverEip191Address S ("Refresh:" ++ toString req.timestamp) req.signature
  let owner ← env.appOwner
  ensure (recovered = owner) (KmsError.invalidSignature ("recovered address " ++
    Address.debug recovered ++ " is not the on-chain owner " ++ Address.debug owner ++
    " of app " ++ appId))
  match env.triggerRefresh with
  | .ok () => return (200, "refresh complete")
  | .error e => return (500, "refresh failed: " ++ e)

/-- `handle_refresh`: the status code and the text of the answer. -/
def handleRefresh (config : ServerConfig) (env : RefreshEnv) (appId : String) (now : ℤ)
    (req : RefreshRequest) : Except KmsError (ℕ × String) := do
  ensure (!tooFarFromNow now req.timestamp config.timestampToleranceSecs)
    (staleTimestamp req.timestamp now)
  refreshSigned S env appId req

theorem appKeyInner_eq (config : ServerConfig) (env : Env) (now : ℤ) (req : AppKeyRequest) :
    appKeyInner S config env now req =
      (ensure (!tooFarFromNow now req.timestamp config.timestampToleranceSecs)
        (staleTimestamp req.timestamp now)).bind fun _ => appKeySigned S env req :=
  rfl

theorem authenticate_eq {config : ServerConfig} {appId : String} {now : ℤ}
    {nodeList : Address → Except KmsError (List Address)}
    {requireVerified : Address → Except String Unit} {metadata : Metadata} {method : String}
    {sigBytes : Bytes} {timestamp : ℤ} (h : parseMetadata metadata = .ok (sigBytes, timestamp)) :
    authenticate S config appId now nodeList requireVerified metadata method =
      (ensure (!tooFarFromNow now timestamp config.timestampToleranceSecs)
        (staleCall timestamp now)).bind fun _ =>
          authenticateSigned S appId nodeList requireVerified sigBytes timestamp method := by
  unfold authenticate
  rw [h]
  rfl

end Endpoint

-- ════════════════════════════════════════════════════════════════════════
-- The wrapped comparison
-- ════════════════════════════════════════════════════════════════════════

/-- The integer is an `i64`. -/
def InI64 (x : ℤ) : Prop := -2 ^ 63 ≤ x ∧ x < 2 ^ 63

theorem wrapI64_of_inI64 {x : ℤ} (h : InI64 x) : wrapI64 x = x := by
  obtain ⟨hlow, hhigh⟩ := h
  simp only [wrapI64, Int.bmod_def]
  omega

theorem wrapI64_of_le {x : ℤ} (hlow : 2 ^ 63 ≤ x) (hhigh : x < 2 ^ 64) :
    wrapI64 x = x - 2 ^ 64 := by
  simp only [wrapI64, Int.bmod_def]
  omega

/-- The wrapped distance is the distance up to `i64::MAX`; beyond that it comes down again, and at
    2^63 it is negative. -/
theorem tooFarFromNow_eq_false {now timestamp tolerance : ℤ} (htimestamp : InI64 timestamp)
    (hnow : 0 ≤ now ∧ InI64 now) (htolerance : 0 ≤ tolerance ∧ InI64 tolerance) :
    tooFarFromNow now timestamp tolerance = false ↔ |now - timestamp| ≤ tolerance ∨
      now - timestamp = 2 ^ 63 ∨ 2 ^ 64 ≤ now - timestamp + tolerance := by
  obtain ⟨hts₁, hts₂⟩ := htimestamp
  obtain ⟨hnow₀, hnow₁, hnow₂⟩ := hnow
  obtain ⟨htol₀, htol₁, htol₂⟩ := htolerance
  rw [tooFarFromNow, decide_eq_false_iff_not, not_lt]
  by_cases hdist : now - timestamp < 2 ^ 63
  · have hdiff : wrapI64 (now - timestamp) = now - timestamp :=
      wrapI64_of_inI64 ⟨by omega, hdist⟩
    have habs : wrapI64 |now - timestamp| = |now - timestamp| := by
      refine wrapI64_of_inI64 ⟨?_, ?_⟩
      · exact le_trans (by norm_num) (abs_nonneg _)
      · exact abs_lt.mpr ⟨by omega, hdist⟩
    rw [hdiff, habs]
    constructor
    · exact .inl
    · rintro (hle | hmin | hbeyond)
      · exact hle
      · omega
      · omega
  · have hdiff : wrapI64 (now - timestamp) = now - timestamp - 2 ^ 64 :=
      wrapI64_of_le (not_lt.mp hdist) (by omega)
    have hneg : |now - timestamp - 2 ^ 64| = 2 ^ 64 - (now - timestamp) := by
      rw [abs_of_nonpos (by omega)]
      ring
    have hpos : |now - timestamp| = now - timestamp := abs_of_nonneg (by omega)
    rw [hdiff, hneg, hpos]
    by_cases hmin : now - timestamp = 2 ^ 63
    · have hwrap : wrapI64 (2 ^ 64 - (now - timestamp)) = -2 ^ 63 := by
        rw [hmin]
        rfl
      rw [hwrap]
      constructor
      · intro _
        exact .inr (.inl hmin)
      · intro _
        omega
    · have hwrap : wrapI64 (2 ^ 64 - (now - timestamp)) = 2 ^ 64 - (now - timestamp) :=
        wrapI64_of_inI64 ⟨by omega, by omega⟩
      rw [hwrap]
      omega

-- ════════════════════════════════════════════════════════════════════════
-- Timestamps as text
-- ════════════════════════════════════════════════════════════════════════

theorem foldl_digits {digits : List Char} (hdigits : ∀ c ∈ digits, c.isDigit = true) (acc : ℕ) :
    digits.foldl (fun (acc : ℤ) c => acc * 10 + (c.toNat - 48)) acc =
      (Nat.ofDigitChars 10 digits acc : ℕ) := by
  induction digits generalizing acc with
  | nil => rfl
  | cons c digits ih =>
    have hc : 48 ≤ c.toNat := by
      have hdigit := hdigits c List.mem_cons_self
      rw [Char.isDigit_iff_toNat] at hdigit
      exact hdigit.1
    have hacc : (acc : ℤ) * 10 + (c.toNat - 48) = ((10 * acc + (c.toNat - '0'.toNat) : ℕ) : ℤ) := by
      show (acc : ℤ) * 10 + (c.toNat - 48) = ((10 * acc + (c.toNat - 48) : ℕ) : ℤ)
      omega
    rw [List.foldl_cons, Nat.ofDigitChars_cons, hacc]
    exact ih (fun d hd => hdigits d (List.mem_cons_of_mem _ hd)) _

/-- What `parseI64` makes of the digits behind the sign. -/
def readDigits (negative : Bool) (digits : List Char) : Option ℤ :=
  if digits.isEmpty ∨ digits.any (!·.isDigit) then none
  else
    let n : ℤ := digits.foldl (fun acc c => acc * 10 + (c.toNat - 48)) 0
    let value := if negative then -n else n
    if -2 ^ 63 ≤ value ∧ value < 2 ^ 63 then some value else none

theorem parseI64_minus {s : String} {digits : List Char} (h : s.toList = '-' :: digits) :
    parseI64 s = readDigits true digits := by
  unfold parseI64
  rw [h]
  rfl

theorem parseI64_digits {s : String} (h : ∀ c ∈ s.toList, c.isDigit = true) :
    parseI64 s = readDigits false s.toList := by
  unfold parseI64
  split
  next negative digits hsplit =>
  split at hsplit
  · next rest hrest =>
    have hminus := h '-' (hrest ▸ List.mem_cons_self)
    exact absurd hminus (by decide)
  · next rest hrest =>
    have hplus := h '+' (hrest ▸ List.mem_cons_self)
    exact absurd hplus (by decide)
  · cases hsplit
    rfl

theorem readDigits_toDigits {negative : Bool} {n : ℕ} {x : ℤ}
    (hx : x = if negative then -(n : ℤ) else n) (h : InI64 x) :
    readDigits negative (Nat.toDigits 10 n) = some x := by
  have hdigits : ∀ c ∈ Nat.toDigits 10 n, c.isDigit = true := fun c hc =>
    Nat.isDigit_of_mem_toDigits (by norm_num) le_rfl hc
  have hvalue := foldl_digits hdigits 0
  rw [Nat.ofDigitChars_ten_toDigits, Nat.cast_zero] at hvalue
  unfold readDigits
  rw [if_neg]
  · simp only [hvalue, ← hx]
    exact if_pos h
  · simpa [Nat.toDigits_ne_nil] using hdigits

/-- A timestamp is read back from its decimal text. -/
theorem parseI64_toString {x : ℤ} (h : InI64 x) : parseI64 (toString x) = some x := by
  cases x with
  | ofNat n =>
    have hlist : (toString (Int.ofNat n)).toList = Nat.toDigits 10 n := Nat.toList_repr
    rw [parseI64_digits, hlist]
    · exact readDigits_toDigits (by simp) h
    · rw [hlist]
      exact fun c hc => Nat.isDigit_of_mem_toDigits (by norm_num) le_rfl hc
  | negSucc n =>
    have hlist : (toString (Int.negSucc n)).toList = '-' :: Nat.toDigits 10 (n + 1) := by
      show ("-" ++ Nat.repr (n + 1)).toList = _
      rw [String.toList_append, Nat.toList_repr]
      rfl
    rw [parseI64_minus hlist]
    exact readDigits_toDigits (by simp [Int.negSucc_eq]) h

/-- Metadata with this timestamp. -/
def metadataAt (timestamp : ℤ) : Metadata :=
  ⟨some (some (hexEncode (List.replicate 65 0))), some (some (toString timestamp))⟩

theorem parseMetadata_metadataAt {timestamp : ℤ} (h : InI64 timestamp) :
    parseMetadata (metadataAt timestamp) = .ok (List.replicate 65 0, timestamp) := by
  have hlength : (List.replicate 65 (0 : UInt8)).length = 65 := by simp
  simp only [parseMetadata, metadataAt, hexDecode_hexEncode, parseI64_toString h, okOr_some,
    ok_bind, ensure_of hlength]
  rfl

-- ════════════════════════════════════════════════════════════════════════
-- The three handlers
-- ════════════════════════════════════════════════════════════════════════

/-- The outcome of a handler that keeps to the window: it goes on with `rest` when the timestamp is
    within the tolerance of the clock, and refuses it otherwise. -/
def KeepsWindow {ε α : Type} (now timestamp tolerance : ℤ) (refusal : ε)
    (rest outcome : Except ε α) : Prop :=
  outcome = if |now - timestamp| ≤ tolerance then rest else .error refusal

/-- The distance is not 2^63 and does not come back into the tolerance from the other side. -/
def Unwrapped (now timestamp tolerance : ℤ) : Prop :=
  now - timestamp ≠ 2 ^ 63 ∧ now - timestamp + tolerance < 2 ^ 64

section Handlers

variable {Sig : Type} (S : Secp Sig)

/-- `authenticate` keeps to the window for every call with this timestamp. -/
def AuthenticateExact (now timestamp tolerance : ℤ) : Prop :=
  ∀ appId nodeList requireVerified metadata method sigBytes,
    parseMetadata metadata = .ok (sigBytes, timestamp) →
      KeepsWindow now timestamp tolerance (staleCall timestamp now)
        (authenticateSigned S appId nodeList requireVerified sigBytes timestamp method)
        (authenticate S ⟨tolerance⟩ appId now nodeList requireVerified metadata method)

/-- `app_key_inner` keeps to the window for every request with this timestamp. -/
def AppKeyExact (now timestamp tolerance : ℤ) : Prop :=
  ∀ env (req : AppKeyRequest), req.timestamp = timestamp →
    KeepsWindow now timestamp tolerance (staleTimestamp timestamp now) (appKeySigned S env req)
      (appKeyInner S ⟨tolerance⟩ env now req)

/-- `handle_refresh` keeps to the window for every request with this timestamp. -/
def RefreshExact (now timestamp tolerance : ℤ) : Prop :=
  ∀ env appId (req : RefreshRequest), req.timestamp = timestamp →
    KeepsWindow now timestamp tolerance (staleTimestamp timestamp now)
      (refreshSigned S env appId req)
      (handleRefresh S ⟨tolerance⟩ env appId now req)

/-- A gate that opens exactly within the tolerance keeps to the window. -/
theorem keepsWindow_of_gate {ε α : Type} {now timestamp tolerance : ℤ}
    (hgate : tooFarFromNow now timestamp tolerance = false ↔ |now - timestamp| ≤ tolerance)
    (refusal : ε) (rest : Except ε α) :
    KeepsWindow now timestamp tolerance refusal rest
      ((ensure (!tooFarFromNow now timestamp tolerance) refusal).bind fun _ => rest) := by
  unfold KeepsWindow
  split
  · next hle =>
    rw [hgate.mpr hle]
    rfl
  · next hgt =>
    have htoo : tooFarFromNow now timestamp tolerance = true := by
      rw [← Bool.not_eq_false]
      exact fun h => hgt (hgate.mp h)
    rw [htoo]
    rfl

/-- The other way round, when what comes behind the gate is not the refusal. -/
theorem gate_of_keepsWindow {ε α : Type} {now timestamp tolerance : ℤ} {refusal : ε}
    {rest : Except ε α} (hrest : rest ≠ .error refusal)
    (h : KeepsWindow now timestamp tolerance refusal rest
      ((ensure (!tooFarFromNow now timestamp tolerance) refusal).bind fun _ => rest)) :
    tooFarFromNow now timestamp tolerance = false ↔ |now - timestamp| ≤ tolerance := by
  unfold KeepsWindow at h
  cases htoo : tooFarFromNow now timestamp tolerance with
  | true =>
    rw [htoo] at h
    refine ⟨nofun, fun hle => ?_⟩
    rw [if_pos hle] at h
    exact absurd h.symm hrest
  | false =>
    rw [htoo] at h
    refine ⟨fun _ => ?_, fun _ => rfl⟩
    by_contra hgt
    rw [if_neg hgt] at h
    exact hrest h

theorem gate_iff_unwrapped {now timestamp tolerance : ℤ} (htimestamp : InI64 timestamp)
    (hnow : 0 ≤ now ∧ InI64 now) (htolerance : 0 ≤ tolerance ∧ InI64 tolerance) :
    (tooFarFromNow now timestamp tolerance = false ↔ |now - timestamp| ≤ tolerance) ↔
      Unwrapped now timestamp tolerance := by
  rw [tooFarFromNow_eq_false htimestamp hnow htolerance]
  -- A wrapped distance is at least 2^63, which no tolerance reaches.
  have hfar : now - timestamp = 2 ^ 63 ∨ 2 ^ 64 ≤ now - timestamp + tolerance →
      ¬ |now - timestamp| ≤ tolerance := by
    intro hwraps hle
    have htol := htolerance.2.2
    have hdist := (abs_le.mp hle).2
    omega
  constructor
  · intro h
    refine ⟨fun hmin => ?_, ?_⟩
    · exact hfar (.inl hmin) (h.mp (.inr (.inl hmin)))
    · by_contra hbeyond
      rw [not_lt] at hbeyond
      exact hfar (.inr hbeyond) (h.mp (.inr (.inr hbeyond)))
  · rintro ⟨hmin, hbeyond⟩
    refine ⟨?_, .inl⟩
    rintro (hle | hwraps | hwraps)
    · exact hle
    · exact absurd hwraps hmin
    · exact absurd hbeyond (not_lt.mpr hwraps)

/-- The signature check of an endpoint on an empty signature. -/
theorem recoverEip191Address_empty (message : String) : recoverEip191Address S message "" =
    .error (.invalidSignature "signature must be 65 bytes (r||s||v), got 0") :=
  rfl

/-- Behind its window `authenticate` has other things to say. -/
theorem authenticateSigned_ne {appId : String} {sigBytes : Bytes} {timestamp now : ℤ}
    {method : String} :
    authenticateSigned S appId (fun _ => .error (.chainError "")) (fun _ => .ok ()) sigBytes
      timestamp method ≠ .error (staleCall timestamp now) := by
  intro h
  have hhead : ∀ e, authenticateSigned S appId (fun _ => .error (.chainError "")) (fun _ => .ok ())
      sigBytes timestamp method = .error (.unauthenticated e) → e.toList.head? ≠ some 't' := by
    intro e he
    unfold authenticateSigned at he
    cases hrecover : recoverPubkey S (utf8 ("kms:" ++ method ++ ":" ++ toString timestamp))
        sigBytes with
    | error m =>
      simp only [hrecover] at he
      cases he
      simp [String.toList_append]
    | ok pubkey =>
      simp only [hrecover] at he
      cases he
      simp [String.toList_append]
  refine hhead _ h ?_
  simp [String.toList_append]

/-- For every timestamp, clock reading and tolerance, each of the three handlers keeps to the
    window exactly when the distance does not wrap into it. -/
theorem freshness_exact_iff {now timestamp tolerance : ℤ} (htimestamp : InI64 timestamp)
    (hnow : 0 ≤ now ∧ InI64 now) (htolerance : 0 ≤ tolerance ∧ InI64 tolerance) :
    (AuthenticateExact S now timestamp tolerance ↔ Unwrapped now timestamp tolerance) ∧
      (AppKeyExact S now timestamp tolerance ↔ Unwrapped now timestamp tolerance) ∧
      (RefreshExact S now timestamp tolerance ↔ Unwrapped now timestamp tolerance) := by
  have hgate := gate_iff_unwrapped htimestamp hnow htolerance
  refine ⟨⟨?_, ?_⟩, ⟨?_, ?_⟩, ⟨?_, ?_⟩⟩
  · intro h
    have hparsed := parseMetadata_metadataAt htimestamp
    have hkeeps := h "" (fun _ => .error (.chainError "")) (fun _ => .ok ()) _ "" _ hparsed
    rw [authenticate_eq S hparsed] at hkeeps
    exact hgate.mp (gate_of_keepsWindow (authenticateSigned_ne S) hkeeps)
  · intro h appId nodeList requireVerified metadata method sigBytes hparsed
    rw [authenticate_eq S hparsed]
    exact keepsWindow_of_gate (hgate.mpr h) _ _
  · intro h
    let env : Env := ⟨fun _ _ => .ok [], fun _ _ => .ok (), fun _ _ => .error (.configError ""), []⟩
    have hkeeps := h env ⟨"", timestamp, "", "", ""⟩ rfl
    rw [appKeyInner_eq] at hkeeps
    refine hgate.mp (gate_of_keepsWindow ?_ hkeeps)
    rw [appKeySigned, recoverEip191Address_empty]
    intro heq
    cases heq
  · intro h env req hreq
    subst hreq
    rw [appKeyInner_eq]
    exact keepsWindow_of_gate (hgate.mpr h) _ _
  · intro h
    have hkeeps := h ⟨.error (.configError ""), .ok ()⟩ "" ⟨timestamp, ""⟩ rfl
    refine hgate.mp (gate_of_keepsWindow ?_ hkeeps)
    rw [refreshSigned, recoverEip191Address_empty]
    intro heq
    cases heq
  · intro h env appId req hreq
    subst hreq
    exact keepsWindow_of_gate (hgate.mpr h) _ _

end Handlers

/-- A minute-old timestamp under the default tolerance. -/
theorem freshness_exact_minute : AuthenticateExact oneSigner 1700000060 1700000000 300 ∧
    AppKeyExact oneSigner 1700000060 1700000000 300 ∧
    RefreshExact oneSigner 1700000060 1700000000 300 := by
  have hunwrapped : Unwrapped 1700000060 1700000000 300 := ⟨by norm_num, by norm_num⟩
  have htimestamp : InI64 1700000000 := ⟨by norm_num, by norm_num⟩
  have hnow : (0 : ℤ) ≤ 1700000060 ∧ InI64 1700000060 := ⟨by norm_num, by norm_num, by norm_num⟩
  have htolerance : (0 : ℤ) ≤ 300 ∧ InI64 300 := ⟨by norm_num, by norm_num, by norm_num⟩
  obtain ⟨hauthenticate, happKey, hrefresh⟩ :=
    freshness_exact_iff oneSigner htimestamp hnow htolerance
  exact ⟨hauthenticate.mpr hunwrapped, happKey.mpr hunwrapped, hrefresh.mpr hunwrapped⟩

/-- Curve operations that recover the signer of `oneSigner` from every signature. -/
def anySignature : Secp Bytes :=
  { oneSigner with recoverFromPrehash := fun _ _ _ => .ok (point 7) }

theorem recover_anySignature (message : String) :
    recoverEip191Address anySignature message (request 7).signature = .ok signer := by
  have hsig : hexDecode (request 7).signature = some (List.replicate 65 0) :=
    hexDecode_hexEncode _
  have hlength : (List.replicate 65 (0 : UInt8)).length = 65 := by simp
  simp only [recoverEip191Address, hsig, okOr_some, ok_bind, ensure_of hlength]
  rfl

/-- The timestamp 2^63 seconds before the clock reading 1700000000. -/
def distantPast : ℤ := 1700000000 - 2 ^ 63

/-- A timestamp from 2^63 seconds ago authenticates a call, is issued a key and starts a
    refresh. -/
theorem distant_past_passes : InI64 distantPast ∧ 300 < |1700000000 - distantPast| ∧
    authenticate anySignature ⟨300⟩ "app" 1700000000 (fun _ => .ok [signer]) (fun _ => .ok ())
      (metadataAt distantPast) "Gossip" = .ok ⟨point 7, signer⟩ ∧
    (∃ out, appKeyInner anySignature ⟨300⟩ env 1700000000
      { request 7 with timestamp := distantPast } = .ok out) ∧
    handleRefresh anySignature ⟨300⟩ ⟨.ok signer, .ok ()⟩ "app" 1700000000
      ⟨distantPast, (request 7).signature⟩ = .ok (200, "refresh complete") := by
  have hpast : InI64 distantPast := ⟨by decide, by decide⟩
  have hopen : tooFarFromNow 1700000000 distantPast 300 = false := by decide
  refine ⟨hpast, by decide, ?_, ?_, ?_⟩
  · rw [authenticate_eq anySignature (parseMetadata_metadataAt hpast), hopen]
    rfl
  · refine ⟨(hexEncode (point 7 ++ [1, 2, 3]), ⟨1, 1, [1, 2]⟩), (appKeyInner_eq_ok _).mpr
      ⟨⟨signer, hopen, recover_anySignature _, ⟨[signer], rfl, by simp⟩, rfl⟩, [0], point 7,
        [1, 2, 3], point 7 ++ [1, 2, 3], ?_, hexDecode_hexEncode _, rfl, ?_, rfl⟩⟩
    · show hexDecode "00" = some [0]
      decide
    · simp [anySignature, oneSigner, env, point]
  · simp only [handleRefresh, refreshSigned, hopen, recover_anySignature, ok_bind]
    rfl

end KmsCluster.Freshness
