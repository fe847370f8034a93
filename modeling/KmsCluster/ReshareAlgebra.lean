import KmsCluster.Reshare

/-!
# What a complete reshare leaves behind

When every participant of a session consumed everyone's contribution, the new shares lie on the
sum of the contributed polynomials. The dealers' Lagrange weights give that sum the intercept of
the old polynomial; the recovering node contributes nothing to it.

## Main results

- `sum_constants`: the intercepts of the contributions add up to the master.
- `reshare_complete`: the new shares, the group key and the keys they derive.
-/

namespace KmsCluster

open Fallible Interpolation Polynomial

section Laws

variable {F R P : Type} [Field F] [DecidableEq F]

/-- A contribution of degree below `threshold` with the given intercept. -/
def ContributesPoly (D : Gennaro F R P) (participant : P) (threshold : ℕ) (intercept : F) : Prop :=
  ∃ g : F[X], g.degree < threshold ∧ g.eval 0 = intercept ∧
    ∀ x, D.contribution participant x = g.eval x

/-- The behaviour of `gennaro-dkg` that resharing rests on. -/
structure Gennaro.Lawful (D : Gennaro F R P) : Prop where
  /-- A dealer contributes its secret times its Lagrange weight among the given ids. -/
  withSecret_contributes : ∀ id threshold limit secret ids index rnd participant x,
    D.withSecret id threshold limit secret ids index rnd = .ok participant →
    ids[index]? = some x → ContributesPoly D participant threshold (weight ids x * secret)
  refreshNew_contributes : ∀ id threshold limit rnd participant,
    D.refreshNew id threshold limit rnd = .ok participant →
    ContributesPoly D participant threshold 0
  /-- No secret is shared with a threshold below two (`SharingMinThreshold`). -/
  withSecret_threshold : ∀ id threshold limit secret ids index rnd participant,
    D.withSecret id threshold limit secret ids index rnd = .ok participant → 2 ≤ threshold
  refreshNew_threshold : ∀ id threshold limit rnd participant,
    D.refreshNew id threshold limit rnd = .ok participant → 2 ≤ threshold

end Laws

section Session

variable {F G₁ G₂ R P : Type} [Field F] [DecidableEq F] [AddCommGroup G₁] [Module F G₁]
  [AddCommGroup G₂] [Module F G₂]

/-- The sum of the participants' contributions at a point. -/
def contributionSum (D : Gennaro F R P) (participants : List P) (x : F) : F :=
  (participants.map fun p => D.contribution p x).sum

/-- Whenever `run_session` returns at a node of the session, it was run with that node's
    participant and consumed the contributions of all of them. -/
def ConsumedAll (B : Blsful F G₁ G₂) (D : Gennaro F R P) (ids : List ℕ) (participant : ℕ → P)
    (runSession : ℕ → P → List SessionPeer → Except String (F × G₁)) : Prop :=
  ∀ i ∈ ids, ∀ own peers out, runSession i own peers = .ok out → own = participant i ∧
    out = (contributionSum D (ids.map participant) i,
      contributionSum D (ids.map participant) 0 • B.generator)

/-- The partial signature a node makes from its stored share. -/
def storedPartial (B : Blsful F G₁ G₂) (st : AppState) (msg : Bytes) :
    Except String (SignatureShare F G₂) := do
  let shard ← okOr st.shard "node not initialized"
  let share ← shareFromBytes B shard.shardBytes
  dprfPartial B share msg

/-- The app key that the nodes `ids` derive together from their stored shares. -/
def derivedKey (B : Blsful F G₁ G₂) (st : ℕ → AppState) (ids : List ℕ) (msg : Bytes) :
    Except String Bytes := do
  let partials ← ids.mapM fun i => storedPartial B (st i) msg
  let sigma ← dprfSigma B partials
  return sigmaToAppKey B sigma

variable {B : Blsful F G₁ G₂} {D : Gennaro F R P}

/-- Nodes whose shares lie on `f` derive the key of the intercept. -/
theorem derivedKey_of_poly (hB : B.Lawful) {f : F[X]} {st : ℕ → AppState} {ids : List ℕ}
    (hnodup : ids.Nodup) (hu32 : ∀ i ∈ ids, i < 2 ^ 32) (htwo : 2 ≤ ids.length)
    (hdeg : f.degree < ids.length)
    (hshare : ∀ i ∈ ids, ∃ e, (st i).shard = some (sessionShard B i e (f.eval (i : F))))
    (msg : Bytes) :
    derivedKey B st ids msg = .ok (sigmaToAppKey B (f.eval 0 • B.hashToCurve msg)) := by
  have hpartial : ∀ i ∈ ids, storedPartial B (st i) msg =
      .ok ⟨(i : F), f.eval (i : F) • B.hashToCurve msg⟩ := by
    intro i hi
    obtain ⟨e, he⟩ := hshare i hi
    simp [storedPartial, he, sessionShard, hB.shareFromBytes_toBytes, hB.dprfPartial_eq]
  rw [derivedKey, mapM_eq_ok_map hpartial, ok_bind,
    hB.dprfSigma_eval f ids msg hnodup hu32 htwo hdeg, ok_bind]
  rfl

omit [DecidableEq F] in
/-- The contributions of a session add up to one polynomial. -/
theorem contributionSum_poly {ids : List ℕ} {participant : ℕ → P} {t : ℕ} {intercept : ℕ → F}
    (h : ∀ i ∈ ids, ContributesPoly D (participant i) t (intercept i)) :
    ∃ f : F[X], f.degree < t ∧ f.eval 0 = (ids.map intercept).sum ∧
      ∀ x, contributionSum D (ids.map participant) x = f.eval x := by
  obtain ⟨f, hdeg, hzero, hsum⟩ := exists_poly_sum h
  refine ⟨f, hdeg, hzero, fun x => ?_⟩
  rw [contributionSum, List.map_map]
  exact hsum x

/-- The weighted shares of the dealers and the zero of the recovering node add up to the
    master. -/
theorem sum_constants {f : F[X]} {req : ReshareRequest}
    (hcast : (req.dealerIds.map fun i : ℕ => (i : F)).Nodup)
    (hdeg : f.degree < req.dealerIds.length)
    (hout : req.recoveringId = 0 ∨ req.recoveringId ∉ req.dealerIds) :
    (req.participantIds.map fun i : ℕ => if i ∈ req.dealerIds then
      weight (req.dealerIds.map fun j : ℕ => (j : F)) (i : F) * f.eval (i : F) else 0).sum =
      f.eval 0 := by
  have hdealers : (req.dealerIds.map fun i : ℕ => if i ∈ req.dealerIds then
      weight (req.dealerIds.map fun j : ℕ => (j : F)) (i : F) * f.eval (i : F) else 0).sum =
      f.eval 0 := by
    have hsum := sum_weight_mul_eval hcast f (by simpa using hdeg)
    rw [List.map_map] at hsum
    rw [← hsum]
    apply congrArg List.sum
    apply List.map_congr_left
    intro i hi
    rw [if_pos hi]
    rfl
  unfold ReshareRequest.participantIds
  split
  · next hne =>
    have hnot : req.recoveringId ∉ req.dealerIds := hout.resolve_left hne
    rw [List.map_append, List.sum_append, hdealers]
    simp [hnot]
  · exact hdealers

/-- The nodes of one complete session: their states before and after, with what each of them
    saw of the chain and drew at random. -/
structure SessionRun (R : Type) where
  before : ℕ → AppState
  after : ℕ → AppState
  nodeList : ℕ → Except String (List Address)
  nodeList' : ℕ → Except String (List Address)
  rnd : ℕ → R
  blob : ℕ → Option String

/-- `run_reshare_dealer` completed at the dealer with nodeList position `i`. -/
def SessionRun.Deals (run : SessionRun R) (B : Blsful F G₁ G₂) (D : Gennaro F R P)
    (runSession : ℕ → P → List SessionPeer → Except String (F × G₁)) (req : ReshareRequest)
    (i : ℕ) : Prop :=
  (∃ members, run.nodeList i = .ok members ∧
    positionOf members (run.before i).ethAddress = some i) ∧
  runReshareDealer B D (run.before i) (run.nodeList i) (run.nodeList' i) req (run.rnd i)
    (runSession i) (run.blob i) = .ok (run.after i)

/-- `run_reshare_recovery` completed at the node with id `r`, which had asked for `req`. -/
def SessionRun.Recovers (run : SessionRun R) (B : Blsful F G₁ G₂) (D : Gennaro F R P)
    (runSession : ℕ → P → List SessionPeer → Except String (F × G₁)) (req : ReshareRequest)
    (threshold r : ℕ) : Prop :=
  ∃ m nonce signature dealers, m.ownId = r ∧ m.threshold = threshold ∧
    recoveryRequest (run.before r) m nonce = .ok (dealers, req) ∧
    runReshareRecovery B D (run.before r) m nonce signature (run.rnd r) (runSession r)
      (run.blob r) = .ok (run.after r)

section Outcome

variable {run : SessionRun R} {runSession : ℕ → P → List SessionPeer → Except String (F × G₁)}
  {req : ReshareRequest} {participant : ℕ → P} {t : ℕ}

/-- A dealer that completes contributed its weighted share and stores the sums. -/
theorem SessionRun.Deals.outcome (hB : B.Lawful) (hD : D.Lawful) {f : F[X]} {i e : ℕ}
    (hconsumed : ConsumedAll B D req.participantIds participant runSession)
    (hmem : i ∈ req.participantIds) (hthreshold : (run.before i).config.threshold = t)
    (hshare : (run.before i).shard = some (sessionShard B i e (f.eval (i : F))))
    (h : run.Deals B D runSession req i) :
    2 ≤ t ∧ ContributesPoly D (participant i) t
        (weight (req.dealerIds.map fun j : ℕ => (j : F)) (i : F) * f.eval (i : F)) ∧
      run.after i = storeShare (run.before i)
        (sessionShard B i req.epoch
          (contributionSum D (req.participantIds.map participant) i))
        (B.pubkeyToBytes
          (contributionSum D (req.participantIds.map participant) 0 • B.generator))
        (run.blob i) := by
  obtain ⟨⟨members, hmembers, hposition⟩, hrun⟩ := h
  obtain ⟨ownId, ownIndex, secret, peers, own, share, pk, hown, -, hsecret, hparticipant, hsession,
    -, hafter⟩ := runReshareDealer_eq_ok hrun
  obtain ⟨members', hmembers', hposition', hindex⟩ := dealerPosition_eq_ok hown
  obtain rfl : members' = members := Except.ok.inj (hmembers'.symm.trans hmembers)
  obtain rfl : ownId = i := Option.some.inj (hposition'.symm.trans hposition)
  obtain ⟨rfl, hout⟩ := hconsumed ownId hmem own peers _ hsession
  rw [Prod.mk.injEq] at hout
  have hsecret' : secret = f.eval (ownId : F) := by
    simp only [hshare, dealerSecret, okOr_some, ok_bind, sessionShard,
      hB.shareFromBytes_toBytes] at hsecret
    exact (Except.ok.inj hsecret).symm
  subst hsecret'
  rw [hthreshold] at hparticipant
  refine ⟨hD.withSecret_threshold _ _ _ _ _ _ _ _ hparticipant,
    hD.withSecret_contributes _ _ _ _ _ _ _ _ _ hparticipant ?_, ?_⟩
  · rw [List.getElem?_map, hindex]
    rfl
  · rw [hafter, hout.1, hout.2]

omit [AddCommGroup G₂] [Module F G₂] in
/-- The recovering node contributes no constant and stores the sums. -/
theorem SessionRun.Recovers.outcome (hD : D.Lawful) {r : ℕ}
    (hconsumed : ConsumedAll B D req.participantIds participant runSession)
    (hmem : r ∈ req.participantIds) (h : run.Recovers B D runSession req t r) :
    ContributesPoly D (participant r) t 0 ∧
      run.after r = storeShare (run.before r)
        (sessionShard B r req.epoch
          (contributionSum D (req.participantIds.map participant) r))
        (B.pubkeyToBytes
          (contributionSum D (req.participantIds.map participant) 0 • B.generator))
        (run.blob r) := by
  obtain ⟨m, nonce, signature, dealers, rfl, hthreshold, hreq, hrun⟩ := h
  obtain ⟨dealers', req', own, share, pk, hreq', hparticipant, hsession, -, hafter⟩ :=
    runReshareRecovery_eq_ok hrun
  have hsame := Except.ok.inj (hreq'.symm.trans hreq)
  rw [Prod.mk.injEq] at hsame
  obtain ⟨rfl, hout⟩ := hconsumed m.ownId hmem own dealers' _ hsession
  rw [Prod.mk.injEq] at hout
  rw [hthreshold] at hparticipant
  refine ⟨hD.refreshNew_contributes _ _ _ _ _ hparticipant, ?_⟩
  rw [hafter, hout.1, hout.2, hsame.2]

end Outcome

theorem mem_participantIds {req : ReshareRequest} {p : ℕ} :
    p ∈ req.participantIds ↔
      p ∈ req.dealerIds ∨ (req.recoveringId ≠ 0 ∧ p = req.recoveringId) := by
  unfold ReshareRequest.participantIds
  split
  · next hne => simp [hne]
  · next hzero =>
    have hzero : req.recoveringId = 0 := not_not.mp hzero
    simp [hzero]

/-- A complete reshare by enough dealers on one polynomial leaves every participant with its
    value of a new polynomial of the same intercept, and with the same group key, so that any
    threshold of them derives the keys derived before. -/
theorem reshare_complete (hB : B.Lawful) (hD : D.Lawful) {run : SessionRun R}
    {runSession : ℕ → P → List SessionPeer → Except String (F × G₁)} {participant : ℕ → P}
    {req : ReshareRequest} {t : ℕ} {f : F[X]} {s : F}
    (hpos : 1 ≤ t) (hnodup : req.dealerIds.Nodup) (henough : t ≤ req.dealerIds.length)
    (hout : req.recoveringId = 0 ∨ req.recoveringId ∉ req.dealerIds)
    (hu32 : ∀ p ∈ req.participantIds, p < 2 ^ 32)
    (hdeg : f.degree < t) (hmaster : f.eval 0 = s)
    (hthreshold : ∀ i ∈ req.dealerIds, (run.before i).config.threshold = t)
    (hshare : ∀ i ∈ req.dealerIds, ∃ e,
      (run.before i).shard = some (sessionShard B i e (f.eval (i : F))))
    (hconsumed : ConsumedAll B D req.participantIds participant runSession)
    (hdeals : ∀ i ∈ req.dealerIds, run.Deals B D runSession req i)
    (hrecovers : req.recoveringId ≠ 0 →
      run.Recovers B D runSession req t req.recoveringId) :
    ∃ f' : F[X], f'.degree < t ∧ f'.eval 0 = s ∧
      (∀ p ∈ req.participantIds,
        (run.after p).shard = some (sessionShard B p req.epoch (f'.eval (p : F))) ∧
        (run.after p).groupPubkey = some (B.pubkeyToBytes (s • B.generator))) ∧
      (∀ ids ⊆ req.participantIds, ids.Nodup → t ≤ ids.length →
        (∀ h : G₂, atZero (ids.map fun p : ℕ => ((p : F), f'.eval (p : F) • h)) = s • h) ∧
        ∀ old ⊆ req.dealerIds, old.Nodup → t ≤ old.length →
          ∀ msg, derivedKey B run.after ids msg = derivedKey B run.before old msg ∧
            derivedKey B run.after ids msg =
              .ok (sigmaToAppKey B (s • B.hashToCurve msg))) := by
  have hdealerIds : ∀ i ∈ req.dealerIds, i ∈ req.participantIds :=
    fun i hi => mem_participantIds.mpr (.inl hi)
  have hcast : ∀ ids : List ℕ, ids ⊆ req.participantIds → ids.Nodup →
      (ids.map fun i : ℕ => (i : F)).Nodup := fun ids hsub hnd =>
    List.Nodup.map_on (fun i hi j hj => hB.cast_inj i j (hu32 i (hsub hi)) (hu32 j (hsub hj))) hnd
  -- Every participant contributed with its own intercept and stored the sums.
  have houtcome : ∀ p ∈ req.participantIds,
      ContributesPoly D (participant p) t (if p ∈ req.dealerIds then
        weight (req.dealerIds.map fun j : ℕ => (j : F)) (p : F) * f.eval (p : F) else 0) ∧
      run.after p = storeShare (run.before p)
        (sessionShard B p req.epoch (contributionSum D (req.participantIds.map participant) p))
        (B.pubkeyToBytes
          (contributionSum D (req.participantIds.map participant) 0 • B.generator))
        (run.blob p) := by
    intro p hp
    by_cases hdealer : p ∈ req.dealerIds
    · obtain ⟨e, he⟩ := hshare p hdealer
      rw [if_pos hdealer]
      exact ((hdeals p hdealer).outcome hB hD hconsumed hp (hthreshold p hdealer) he).2
    · obtain ⟨hne, rfl⟩ := (mem_participantIds.mp hp).resolve_left hdealer
      rw [if_neg hdealer]
      exact (hrecovers hne).outcome hD hconsumed hp
  obtain ⟨f', hdeg', hzero, hsum⟩ := contributionSum_poly fun p hp => (houtcome p hp).1
  have hlarge : f.degree < req.dealerIds.length := lt_of_lt_of_le hdeg (by exact_mod_cast henough)
  have hmaster' : f'.eval 0 = s := by
    rw [hzero, sum_constants (hcast _ hdealerIds hnodup) hlarge hout, hmaster]
  have hstored : ∀ p ∈ req.participantIds,
      (run.after p).shard = some (sessionShard B p req.epoch (f'.eval (p : F))) ∧
      (run.after p).groupPubkey = some (B.pubkeyToBytes (s • B.generator)) := by
    intro p hp
    rw [(houtcome p hp).2, hsum, hsum, hmaster']
    exact ⟨rfl, rfl⟩
  -- A dealer completed, so the library has taken the threshold.
  have htwo : 2 ≤ t := by
    obtain ⟨i, hi⟩ := List.exists_mem_of_length_pos (le_trans hpos henough)
    obtain ⟨e, he⟩ := hshare i hi
    exact ((hdeals i hi).outcome hB hD hconsumed (hdealerIds i hi) (hthreshold i hi) he).1
  refine ⟨f', hdeg', hmaster', hstored, ?_⟩
  intro ids hsub hids hlen
  have hdegIds : f'.degree < ids.length := lt_of_lt_of_le hdeg' (by exact_mod_cast hlen)
  refine ⟨?_, ?_⟩
  · intro h
    have hpoint := atZero_eval (hcast ids hsub hids) f' (by simpa using hdegIds) h
    rw [List.map_map, hmaster'] at hpoint
    exact hpoint
  · intro old holdSub hold holdLen msg
    have hnew := derivedKey_of_poly hB hids (fun i hi => hu32 i (hsub hi)) (le_trans htwo hlen)
      hdegIds (fun i hi => ⟨_, (hstored i (hsub hi)).1⟩) msg
    have hbefore := derivedKey_of_poly hB hold
      (fun i hi => hu32 i (hdealerIds i (holdSub hi))) (le_trans htwo holdLen)
      (lt_of_lt_of_le hdeg (by exact_mod_cast holdLen)) (fun i hi => hshare i (holdSub hi)) msg
    rw [hmaster'] at hnew
    rw [hmaster] at hbefore
    exact ⟨hnew.trans hbefore.symm, hnew⟩

end Session

-- ════════════════════════════════════════════════════════════════════════
-- A session that runs
-- ════════════════════════════════════════════════════════════════════════

/-- Participants as coefficient lists over `Scalar`, constant term first. -/
def scalarGennaro : Gennaro Scalar (List Scalar) (List Scalar) where
  withSecret _ threshold _ secret ids index rnd :=
    match threshold, ids[index]? with
    | t + 2, some x => .ok (weight ids x * secret :: rnd.take (t + 1))
    | _, _ => .error "invalid parameters"
  refreshNew _ threshold _ rnd :=
    match threshold with
    | t + 2 => .ok (0 :: rnd.take (t + 1))
    | _ => .error "invalid parameters"
  contribution cs x := horner cs x

theorem contributesPoly_cons (c : Scalar) (rnd : List Scalar) (t : ℕ) :
    ContributesPoly scalarGennaro (c :: rnd.take t) (t + 1) c := by
  refine ⟨toPoly (c :: rnd.take t), ?_, ?_, fun x => (eval_toPoly _ x).symm⟩
  · refine lt_of_lt_of_le (degree_toPoly_lt _) ?_
    have hlen : (c :: rnd.take t).length ≤ t + 1 := by simp
    exact_mod_cast hlen
  · rw [eval_toPoly, horner_cons_zero]

theorem scalarGennaro_lawful : scalarGennaro.Lawful where
  withSecret_contributes id threshold limit secret ids index rnd participant x h hx := by
    simp only [scalarGennaro, hx] at h
    split at h
    · next t x' heq =>
      cases h
      cases heq
      exact contributesPoly_cons _ rnd (t + 1)
    · cases h
  refreshNew_contributes id threshold limit rnd participant h := by
    simp only [scalarGennaro] at h
    split at h
    · next t =>
      cases h
      exact contributesPoly_cons 0 rnd (t + 1)
    · cases h
  withSecret_threshold id threshold limit secret ids index rnd participant h := by
    simp only [scalarGennaro] at h
    split at h
    · omega
    · cases h
  refreshNew_threshold id threshold limit rnd participant h := by
    simp only [scalarGennaro] at h
    split at h
    · omega
    · cases h

namespace TwoOfThree

def config : Config := ⟨"app", 2, 3, "", []⟩

def nodeList : List Address := [1, 2, 3]

def peer (epoch : ℕ) : PeerInfo := ⟨"url", 0, [4], epoch, []⟩

def table : PeerTable :=
  AList.insert 3 (peer 0) (AList.insert 2 (peer 1) (AList.insert 1 (peer 1) ∅))

/-- Nodes 1 and 2 hold shares of 5 on the line of slope 1; node 3 lost its share. -/
def before (i : ℕ) : AppState :=
  { AppState.new config (BitVec.ofNat 160 i) with
    shard := if i = 3 then none else some (sessionShard scalarBlsful i 1 (5 + i : ℕ))
    peerTable := table }

def membership : Membership :=
  ⟨3, [⟨1, "url", [4], 1⟩, ⟨2, "url", [4], 1⟩], 2, 3, true⟩

def request : ReshareRequest := ⟨"reshare:app:2:0", 3, [1, 2], 2⟩

def participant (i : ℕ) : List Scalar :=
  [if i = 3 then 0 else weight ([1, 2].map fun j : ℕ => (j : Scalar)) (i : Scalar) * (5 + i : ℕ),
    (7 : ℕ)]

def runSession (i : ℕ) (own : List Scalar) (_ : List SessionPeer) :
    Except String (Scalar × Scalar) :=
  if own = participant i then
    .ok (contributionSum scalarGennaro ([1, 2, 3].map participant) i,
      contributionSum scalarGennaro ([1, 2, 3].map participant) 0)
  else .error "other participant"

def run : SessionRun (List Scalar) where
  before := before
  after i := storeShare (before i)
    (sessionShard scalarBlsful i 2 (contributionSum scalarGennaro ([1, 2, 3].map participant) i))
    (scalarBlsful.pubkeyToBytes
      (contributionSum scalarGennaro ([1, 2, 3].map participant) 0)) none
  nodeList _ := .ok nodeList
  nodeList' _ := .ok nodeList
  rnd _ := [(7 : ℕ)]
  blob _ := none

theorem dealerSecret_before {i : ℕ} (hi : i ≠ 3) :
    dealerSecret scalarBlsful (before i).shard = .ok ((5 + i : ℕ) : Scalar) := by
  simp [dealerSecret, before, hi, sessionShard, scalarBlsful_lawful.shareFromBytes_toBytes, pure,
    Except.pure, blsfulShareScalar]

theorem deals {i index : ℕ} {peers : List SessionPeer} (hi : i ≠ 3)
    (hposition : dealerPosition (before i) (.ok nodeList) [1, 2] = .ok (i, index))
    (hpeers : resolvePeers table nodeList [1, 2, 3] i = .ok peers)
    (hindex : ([1, 2].map fun j : ℕ => (j : Scalar))[index]? = some (i : Scalar)) :
    run.Deals scalarBlsful scalarGennaro runSession request i := by
  obtain ⟨members, hmembers, hpos, -⟩ := dealerPosition_eq_ok hposition
  refine ⟨⟨members, hmembers, hpos⟩, ?_⟩
  have hepoch : dealerEpochCheck (before i).shard 2 = .ok () := by
    refine ensure_of ?_ _
    simp [before, hi, sessionShard]
  have hparticipant : dealerParticipant scalarGennaro config i index ((5 + i : ℕ) : Scalar) [1, 2]
      [((7 : ℕ) : Scalar)] = .ok (participant i) := by
    simp only [dealerParticipant, scalarGennaro, config, hindex, participant, if_neg hi]
    rfl
  have hsession : ∀ own, own = participant i → runSession i own peers =
      .ok (contributionSum scalarGennaro ([1, 2, 3].map participant) i,
        contributionSum scalarGennaro ([1, 2, 3].map participant) 0) := fun own hown => if_pos hown
  simp only [run, runReshareDealer, request, hposition, hepoch, dealerSecret_before hi, ok_bind,
    mapError_ok]
  change (resolvePeers table nodeList [1, 2, 3] i >>= _) = _
  rw [hpeers, ok_bind]
  change (dealerParticipant scalarGennaro config i index ((5 + i : ℕ) : Scalar) [1, 2]
    [((7 : ℕ) : Scalar)] >>= _) = _
  rw [hparticipant, ok_bind, hsession _ rfl]
  rfl

end TwoOfThree

open TwoOfThree in
/-- Nodes 1 and 2 reshare and node 3 gets its share back; nodes 1 and 3 now derive the keys that
    nodes 1 and 2 derived. -/
theorem reshare_complete_twoOfThree :
    ∃ f' : Scalar[X], f'.degree < (2 : ℕ) ∧ f'.eval 0 = 5 ∧
      (∀ p ∈ [1, 2, 3],
        (run.after p).shard = some (sessionShard scalarBlsful p 2 (f'.eval (p : Scalar)))) ∧
      ∀ msg, derivedKey scalarBlsful run.after [1, 3] msg =
        derivedKey scalarBlsful run.before [1, 2] msg := by
  have hdeg : (C 5 + X : Scalar[X]).degree < ((2 : ℕ) : WithBot ℕ) := by
    rw [add_comm, degree_X_add_C]
    decide
  have hdeals : ∀ i ∈ [1, 2], run.Deals scalarBlsful scalarGennaro runSession request i := by
    intro i hi
    fin_cases hi
    · exact deals (by decide) rfl rfl rfl
    · exact deals (by decide) rfl rfl rfl
  have hconsumed : ConsumedAll scalarBlsful scalarGennaro request.participantIds participant
      runSession := by
    change ConsumedAll scalarBlsful scalarGennaro [1, 2, 3] participant runSession
    intro i _ own peers out hok
    simp only [runSession] at hok
    split at hok
    · next hown =>
      cases hok
      exact ⟨hown, by simp [scalarBlsful]⟩
    · cases hok
  obtain ⟨f', hdeg', hzero, hstored, hkeys⟩ := reshare_complete (t := 2) (f := C 5 + X) (s := 5)
    scalarBlsful_lawful scalarGennaro_lawful (by decide) (by decide) (by decide)
    (.inr (by decide)) (by decide) hdeg (by simp) (fun _ _ => rfl)
    (by intro i hi; fin_cases hi <;> exact ⟨1, by norm_num [run, before]⟩) hconsumed hdeals
    (fun _ => ⟨membership, 0, .ok [], membership.peers, rfl, rfl, rfl, rfl⟩)
  refine ⟨f', hdeg', hzero, fun p hp => (hstored p hp).1, fun msg => ?_⟩
  have hnew := hkeys [1, 3] (by decide) (by decide) (by decide)
  exact (hnew.2 [1, 2] (by decide) (by decide) (by decide) msg).1

end KmsCluster
