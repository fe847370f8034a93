import KmsCluster.PeerCalls

/-!
# Shares handed to callers

What a registered and attested caller learns from `GetShardContribution` (`src/grpc.rs`), which
nothing in the repository calls: each answer is the whole share of the node that gives it.

## Main results

- `contributions_threshold`: from how many answers on the caller knows the master.
-/

namespace KmsCluster.PeerCalls

open Fallible Interpolation Polynomial

variable {F G₁ G₂ Sig : Type} (B : Blsful F G₁ G₂) (S : PeerCrypto Sig)

/-- The share that a caller reads off the answer of a node. -/
def contribution (own : NodeKey) (metadata : Metadata) (server : Server × CallEnv) :
    Except String (SecretKeyShare F) := do
  let resp ← (getShardContributionHandler S server.1 server.2 metadata).mapError (·.message)
  let bytes ← (eciesDecrypt S own.privateKey resp.ciphertext).mapError KmsError.display
  shareFromBytes B bytes

/-- The node holds its share of `f` at the epoch. -/
def Server.HoldsShareOf [Field F] (node : Server) (f : F[X]) (epoch : ℕ) : Prop :=
  ∃ i : ℕ, 0 < i ∧ i < 2 ^ 32 ∧ node.shard = some ⟨i, shareToBytes B ⟨i, f.eval (i : F)⟩, epoch⟩

def Server.shardIndex (node : Server) : ℕ := node.shard.elim 0 (·.shardIndex)

variable {B S} [Field F] [DecidableEq F] [AddCommGroup G₁] [Module F G₁] [AddCommGroup G₂]
  [Module F G₂] {own : NodeKey} {ownPubkey : Bytes} {lookups : Lookups} {timestamp : ℤ}
  {f : F[X]} {epoch : ℕ}

theorem Peers.contribution_eq (hB : B.Lawful) {server : Server × CallEnv}
    (h : Peers S own ownPubkey lookups server.1 server.2 timestamp) {sig : Bytes}
    (hsig : signRequest S own.privateKey "GetShardContribution" timestamp = .ok sig)
    (hshare : server.1.HoldsShareOf B f epoch) :
    contribution B S own (requestMetadata sig timestamp) server =
      .ok ⟨server.1.shardIndex, f.eval (server.1.shardIndex : F)⟩ := by
  obtain ⟨i, -, -, hshard⟩ := hshare
  obtain ⟨ciphertext, answer, hrespond, hdecrypt, -⟩ := h.respond_eq
    (shareToBytes B ⟨i, f.eval (i : F)⟩)
    (shardSigningMsg "GetShardContribution" own.ethAddress (UInt32.ofNat i))
  simp only [contribution, getShardContributionHandler, h.authenticate_eq hsig, hshard, okOr_some,
    ok_bind, hrespond, pure, Except.pure, mapError_ok, hdecrypt, hB.shareFromBytes_toBytes,
    Server.shardIndex, Option.elim_some]

/-- For any nodes with shares of one epoch: every one of them hands its share to a caller that is
    registered and attested. From a threshold of answers the caller computes the master; fewer
    answers go with every master. -/
theorem contributions_threshold (hB : B.Lawful) {sig : Bytes} {threshold : ℕ}
    (hsig : signRequest S own.privateKey "GetShardContribution" timestamp = .ok sig)
    (servers : List (Server × CallEnv))
    (hpeers : ∀ s ∈ servers, Peers S own ownPubkey lookups s.1 s.2 timestamp)
    (hshares : ∀ s ∈ servers, s.1.HoldsShareOf B f epoch)
    (hdistinct : (servers.map (·.1.shardIndex)).Nodup) (hdegree : f.degree < threshold) :
    ∃ shares, servers.mapM (contribution B S own (requestMetadata sig timestamp)) = .ok shares ∧
      (threshold ≤ servers.length →
        atZero (shares.map fun share => (share.identifier, share.value)) = f.eval 0) ∧
      (servers.length < threshold → ∀ master, ∃ g : F[X], g.degree < threshold ∧
        g.eval 0 = master ∧ ∀ share ∈ shares, share.value = g.eval share.identifier) := by
  have hu32 : ∀ i ∈ servers.map (·.1.shardIndex), 0 < i ∧ i < 2 ^ 32 := by
    intro i hi
    obtain ⟨s, hs, rfl⟩ := List.mem_map.mp hi
    obtain ⟨i, hpos, hlt, hshard⟩ := hshares s hs
    rw [Server.shardIndex, hshard]
    exact ⟨hpos, hlt⟩
  have hcast : ((servers.map (·.1.shardIndex)).map fun i : ℕ => (i : F)).Nodup :=
    List.Nodup.map_on (fun i hi j hj => hB.cast_inj i j (hu32 i hi).2 (hu32 j hj).2) hdistinct
  refine ⟨_, mapM_eq_ok_map fun s hs => (hpeers s hs).contribution_eq hB hsig (hshares s hs),
    fun hmany => ?_, fun hfew master => ?_⟩
  · have hlength : f.degree < ((servers.map (·.1.shardIndex)).map fun i : ℕ => (i : F)).length := by
      simp only [List.length_map]
      exact lt_of_lt_of_le hdegree (by exact_mod_cast hmany)
    have hzero := atZero_eval hcast f hlength (1 : F)
    simpa [Function.comp_def] using hzero
  · have hpos : (0 : F) ∉ (servers.map (·.1.shardIndex)).map fun i : ℕ => (i : F) := by
      intro hmem
      obtain ⟨i, hi, hi0⟩ := List.mem_map.mp hmem
      have hi0' : (i : F) = (0 : ℕ) := by rw [hi0, Nat.cast_zero]
      exact absurd (hB.cast_inj i 0 (hu32 i hi).2 (by decide) hi0') (hu32 i hi).1.ne'
    obtain ⟨g, hg, hgzero, hagree⟩ :=
      exists_poly_with_constant hpos hdegree (by simpa using hfew) master
    refine ⟨g, hg, hgzero, fun share hshare => ?_⟩
    obtain ⟨s, hs, rfl⟩ := List.mem_map.mp hshare
    exact (hagree _ (List.mem_map_of_mem (List.mem_map_of_mem hs))).symm

/-- Two nodes at epoch 1 of the master 5. -/
def holders : List (Server × CallEnv) :=
  [1, 2].map fun b : UInt8 => (byteServer b (some (lineShard b.toNat 1)) none, byteEnv twoNodes)

theorem exists_of_mem_holders {s : Server × CallEnv} (hs : s ∈ holders) : ∃ b : UInt8,
    s = (byteServer b (some (lineShard b.toNat 1)) none, byteEnv twoNodes) ∧ 0 < b.toNat ∧
      (byteKey b).ethAddress ∈ twoNodes := by
  obtain ⟨b, hb, rfl⟩ := List.mem_map.mp hs
  rcases List.mem_cons.mp hb with rfl | hb
  · exact ⟨1, rfl, by decide, List.mem_cons_self⟩
  · obtain rfl := List.mem_singleton.mp hb
    exact ⟨2, rfl, by decide, List.mem_cons_of_mem _ List.mem_cons_self⟩

/-- Nodes 1 and 2 hand their shares to node 1, which interpolates the master. -/
theorem contributions_threshold_two : ∃ shares,
    holders.mapM (contribution scalarBlsful byteKeys (byteKey 1)
      (requestMetadata (List.replicate 64 1 ++ [0]) 0)) = .ok shares ∧
      atZero (shares.map fun share => (share.identifier, share.value)) = (5 : Scalar) := by
  have hdegree : (C 5 + C ((1 : ℕ) : Scalar) * X).degree < ((2 : ℕ) : WithBot ℕ) := by
    rw [add_comm]
    exact lt_of_le_of_lt degree_linear_le (by decide)
  have hpeers : ∀ s ∈ holders, Peers byteKeys (byteKey 1) (AppKey.point 1)
      (byteEnv twoNodes).toLookups s.1 s.2 0 := by
    intro s hs
    obtain ⟨b, rfl, -, hmem⟩ := exists_of_mem_holders hs
    exact bytePeers List.mem_cons_self hmem
  have hshares : ∀ s ∈ holders,
      s.1.HoldsShareOf scalarBlsful (C 5 + C ((1 : ℕ) : Scalar) * X) 1 := by
    intro s hs
    obtain ⟨b, rfl, hpos, -⟩ := exists_of_mem_holders hs
    exact ⟨b.toNat, hpos, lt_trans b.toNat_lt (by norm_num), by simp [byteServer, lineShard]⟩
  obtain ⟨shares, hread, hmaster, -⟩ := contributions_threshold scalarBlsful_lawful
    (signRequest_byteKey 1 _ 0) holders hpeers hshares (by decide) hdegree
  refine ⟨shares, hread, ?_⟩
  rw [hmaster le_rfl]
  simp

end KmsCluster.PeerCalls
