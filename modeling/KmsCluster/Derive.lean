import KmsCluster.Lib.AssocMap
import KmsCluster.ScalarCurve
import KmsCluster.Server

/-!
# Key derivation

Model of `collect_and_dprf` and of the `GetDprfPartial` handler (`src/grpc.rs`). The peer
futures complete in any order, so the loop runs over an arbitrary list of replies.

## Main results

- `Collected.run`: what the collection loop holds after any replies of an honest committee.
- `collectAndDprf_honest`: when the derivation succeeds, and with which key.
-/

namespace KmsCluster

open Fallible Polynomial

/-- Which nodes served one derive. -/
structure DeriveTrace where
  coordinator : ℕ
  epoch : ℕ
  servers : List ℕ
  deriving DecidableEq

/-- A reply of `get_dprf_partial`: shard index, partial bytes and epoch. -/
abbrev PartialReply := Except String (ℕ × Bytes × ℕ)

/-- The variables of the collection loop. -/
structure Collect (F G₂ : Type) where
  buckets : Multimap ℕ (SignatureShare F G₂)
  seen : Multimap ℕ ℕ
  contributors : Multimap ℕ ℕ
  ready : Option ℕ

section Functions

variable {F G₁ G₂ : Type} (B : Blsful F G₁ G₂)

/-- The `GetDprfPartial` handler, as the coordinator reads its answer after decryption. -/
def getDprfPartial (shard : Option ShardState) (appId : String) (material : Bytes) :
    PartialReply := do
  let shard ← okOr shard "node not initialized"
  let share ← (shareFromBytes B shard.shardBytes).mapError fun _ => "local shard unavailable"
  let sig ← (dprfPartial B share (dprfMessage appId material)).mapError
    fun _ => "partial signing failed"
  return (shard.shardIndex, partialToBytes B sig, shard.epoch)

/-- The loop variables after the coordinator's own partial went in. -/
def Collect.start (threshold : ℕ) (own : ShardState) (ownPartial : SignatureShare F G₂) :
    Collect F G₂ :=
  let buckets := Multimap.push ∅ own.epoch ownPartial
  { buckets := buckets
    seen := Multimap.push ∅ own.epoch own.shardIndex
    contributors := Multimap.push ∅ own.epoch own.shardIndex
    ready := if threshold ≤ (Multimap.get buckets own.epoch).length then some own.epoch else none }

/-- One completed peer future. -/
def Collect.receive (threshold : ℕ) (c : Collect F G₂) : PartialReply → Collect F G₂
  | .error _ => c
  | .ok (idx, bytes, epoch) =>
    if idx ∈ Multimap.get c.seen epoch then c
    else
      let seen := Multimap.push c.seen epoch idx
      match partialFromBytes B bytes with
      | .error _ => { c with seen := seen }
      | .ok sig =>
        let buckets := Multimap.push c.buckets epoch sig
        { buckets := buckets
          seen := seen
          contributors := Multimap.push c.contributors epoch idx
          ready := if threshold ≤ (Multimap.get buckets epoch).length then some epoch
            else c.ready }

/-- `while ready.is_none()` over the peer futures in completion order. -/
def Collect.run (threshold : ℕ) : Collect F G₂ → List PartialReply → Collect F G₂
  | c, [] => c
  | c, reply :: replies =>
    if c.ready.isSome then c else Collect.run threshold (c.receive B threshold reply) replies

/-- Combine, verify and derive. -/
def Collect.finish (threshold : ℕ) (c : Collect F G₂) (own : ShardState)
    (groupPubkey : Option Bytes) (msg : Bytes) : Except KmsError (Bytes × DeriveTrace) := do
  let epoch ← okOr c.ready (.cryptoError
    ("not enough valid partials in any single epoch: best " ++
      toString (Multimap.longest c.buckets) ++ ", need " ++ toString threshold))
  let sigma ← (dprfSigma B (Multimap.get c.buckets epoch)).mapError .cryptoError
  let groupPubkey ← okOr groupPubkey (.cryptoError "no group public key to verify against")
  let _ ← (dprfVerify B sigma groupPubkey msg).mapError .cryptoError
  let servers := (Multimap.get c.contributors epoch).insertionSort (· ≤ ·)
  return (sigmaToAppKey B sigma, ⟨own.shardIndex, epoch, servers⟩)

/-- `collect_and_dprf`. The share is read before the collection and the group public key after
    it; `signature` is the outcome of `sign_request`. -/
def collectAndDprf (threshold : ℕ) (shard : Option ShardState) (signature : Except String Bytes)
    (replies : List PartialReply) (groupPubkey : Option Bytes) (appId : String)
    (material : Bytes) : Except KmsError (Bytes × DeriveTrace) := do
  let own ← okOr shard (.configError "node not initialized")
  let ownShare ← (shareFromBytes B own.shardBytes).mapError .cryptoError
  let msg := dprfMessage appId material
  let ownPartial ← (dprfPartial B ownShare msg).mapError .cryptoError
  let _ ← signature.mapError .cryptoError
  let c := Collect.run B threshold (Collect.start threshold own ownPartial) replies
  c.finish B threshold own groupPubkey msg

/-- Without a ready epoch there is no key. -/
theorem Collect.finish_of_none {threshold : ℕ} {c : Collect F G₂} (hready : c.ready = none)
    (own : ShardState) (groupPubkey : Option Bytes) (msg : Bytes) (r : Bytes × DeriveTrace) :
    c.finish B threshold own groupPubkey msg ≠ .ok r := by
  simp [Collect.finish, hready, okOr, bind, Except.bind]

end Functions

/-- The nodes that contribute at an epoch: the coordinator and the peers that answered. -/
def contributingNodes (own : ShardState) (answers : List (Except String ShardState)) (epoch : ℕ) :
    Finset ℕ :=
  (((own :: answers.filterMap Except.toOption).filter (·.epoch = epoch)).map
    (·.shardIndex)).toFinset

section Honest

variable {F G₁ G₂ : Type} [Field F] [AddCommGroup G₂] [Module F G₂] {B : Blsful F G₁ G₂}

/-- The share is the value of its epoch's polynomial at the node's own `u32` index. -/
structure OnPolynomial (B : Blsful F G₁ G₂) (f : ℕ → F[X]) (shard : ShardState) : Prop where
  index_lt : shard.shardIndex < 2 ^ 32
  shardBytes_eq : shard.shardBytes =
    shareToBytes B ⟨shard.shardIndex, (f shard.epoch).eval (shard.shardIndex : F)⟩

/-- The partial of the node with index `i` on the polynomial `f`. -/
def partialAt (B : Blsful F G₁ G₂) (f : F[X]) (msg : Bytes) (i : ℕ) : SignatureShare F G₂ :=
  ⟨i, f.eval (i : F) • B.hashToCurve msg⟩

/-- What the loop variables hold once the answers of `sources` went in. -/
structure Collected (B : Blsful F G₁ G₂) (f : ℕ → F[X]) (msg : Bytes) (threshold : ℕ)
    (sources : List ShardState) (c : Collect F G₂) : Prop where
  mem_seen : ∀ e i, i ∈ Multimap.get c.seen e ↔
    ∃ shard ∈ sources, shard.epoch = e ∧ shard.shardIndex = i
  nodup : ∀ e, (Multimap.get c.seen e).Nodup
  buckets_eq : ∀ e, Multimap.get c.buckets e =
    (Multimap.get c.seen e).map (partialAt B (f e) msg)
  ready_some : ∀ e, c.ready = some e → threshold ≤ (Multimap.get c.seen e).length
  ready_none : c.ready = none → ∀ e, (Multimap.get c.seen e).length < threshold

variable {f : ℕ → F[X]} {msg : Bytes} {threshold : ℕ} {sources : List ShardState}
  {c : Collect F G₂}

/-- The buckets hold the partials of the indices `ids`, each once per epoch, and `ready` follows
    their number. -/
structure Bucketed (B : Blsful F G₁ G₂) (f : ℕ → F[X]) (msg : Bytes) (threshold : ℕ)
    (ids : Multimap ℕ ℕ) (c : Collect F G₂) : Prop where
  nodup : ∀ e, (Multimap.get ids e).Nodup
  buckets_eq : ∀ e, Multimap.get c.buckets e = (Multimap.get ids e).map (partialAt B (f e) msg)
  ready_some : ∀ e, c.ready = some e → threshold ≤ (Multimap.get ids e).length
  ready_none : c.ready = none → ∀ e, (Multimap.get ids e).length < threshold

/-- One more index and its partial go in. -/
theorem Bucketed.push {ids : Multimap ℕ ℕ} (h : Bucketed B f msg threshold ids c)
    (hready : c.ready = none) {epoch index : ℕ} {c' : Collect F G₂}
    (hnew : index ∉ Multimap.get ids epoch)
    (hbuckets : c'.buckets = Multimap.push c.buckets epoch (partialAt B (f epoch) msg index))
    (hready' : c'.ready = if threshold ≤ (Multimap.get c'.buckets epoch).length
      then some epoch else none) :
    Bucketed B f msg threshold (Multimap.push ids epoch index) c' := by
  have hbucket : ∀ e, Multimap.get c'.buckets e =
      (Multimap.get (Multimap.push ids epoch index) e).map (partialAt B (f e) msg) := by
    intro e
    rw [hbuckets]
    by_cases he : e = epoch
    · subst he
      simp [h.buckets_eq]
    · simp [Multimap.get_push_of_ne _ _ he, h.buckets_eq]
  have hlen : (Multimap.get c'.buckets epoch).length =
      (Multimap.get (Multimap.push ids epoch index) epoch).length := by
    rw [hbucket, List.length_map]
  refine ⟨?_, hbucket, ?_, ?_⟩
  · intro e
    by_cases he : e = epoch
    · subst he
      rw [Multimap.get_push_self, List.nodup_append]
      refine ⟨h.nodup _, List.nodup_singleton _, ?_⟩
      intro i hi j hj hij
      rw [List.mem_singleton] at hj
      exact hnew (hj ▸ hij ▸ hi)
    · rw [Multimap.get_push_of_ne _ _ he]
      exact h.nodup e
  · intro e he
    rw [hready'] at he
    split at he
    · next hlarge =>
      cases he
      rwa [← hlen]
    · cases he
  · intro hnone e
    rw [hready'] at hnone
    split at hnone
    · cases hnone
    · next hsmall =>
      by_cases he : e = epoch
      · subst he
        rw [← hlen]
        omega
      · rw [Multimap.get_push_of_ne _ _ he]
        exact h.ready_none hready e

/-- A node's index goes in once per epoch, and `ready` follows the length of its bucket. -/
theorem Collected.push (h : Collected B f msg threshold sources c) (hready : c.ready = none)
    {shard : ShardState} {c' : Collect F G₂}
    (hnew : shard.shardIndex ∉ Multimap.get c.seen shard.epoch)
    (hseen : c'.seen = Multimap.push c.seen shard.epoch shard.shardIndex)
    (hbuckets : c'.buckets = Multimap.push c.buckets shard.epoch
      (partialAt B (f shard.epoch) msg shard.shardIndex))
    (hready' : c'.ready = if threshold ≤ (Multimap.get c'.buckets shard.epoch).length
      then some shard.epoch else none) :
    Collected B f msg threshold (sources ++ [shard]) c' := by
  have hbucketed : Bucketed B f msg threshold c'.seen c' := by
    rw [hseen]
    exact Bucketed.push ⟨h.nodup, h.buckets_eq, h.ready_some, h.ready_none⟩ hready hnew hbuckets
      hready'
  refine ⟨?_, hbucketed.nodup, hbucketed.buckets_eq, hbucketed.ready_some, hbucketed.ready_none⟩
  intro e i
  by_cases he : e = shard.epoch
  · subst he
    rw [hseen, Multimap.get_push_self, List.mem_append, h.mem_seen, List.mem_singleton]
    simp only [List.mem_append, List.mem_singleton, or_and_right, exists_or, exists_eq_left,
      true_and, eq_comm (a := i)]
  · rw [hseen, Multimap.get_push_of_ne _ _ he, h.mem_seen]
    simp only [List.mem_append, List.mem_singleton, or_and_right, exists_or, exists_eq_left,
      Ne.symm he, false_and, or_false]

/-- An answer of a node whose index is already there changes nothing. -/
theorem Collected.again (h : Collected B f msg threshold sources c) {shard : ShardState}
    (hold : shard.shardIndex ∈ Multimap.get c.seen shard.epoch) :
    Collected B f msg threshold (sources ++ [shard]) c := by
  refine ⟨?_, h.nodup, h.buckets_eq, h.ready_some, h.ready_none⟩
  intro e i
  rw [h.mem_seen]
  constructor
  · rintro ⟨source, hsource, he⟩
    exact ⟨source, List.mem_append_left _ hsource, he⟩
  · rintro ⟨source, hsource, he⟩
    rcases List.mem_append.mp hsource with hsource | hsource
    · exact ⟨source, hsource, he⟩
    · rw [List.mem_singleton] at hsource
      subst hsource
      rw [← he.1, ← he.2]
      exact (h.mem_seen _ _).mp hold

theorem Collected.start (hthreshold : 2 ≤ threshold) (own : ShardState) :
    Collected B f msg threshold [own]
      (Collect.start threshold own (partialAt B (f own.epoch) msg own.shardIndex)) := by
  have hempty : Collected B f msg threshold []
      (⟨∅, ∅, ∅, none⟩ : Collect F G₂) := by
    refine ⟨?_, ?_, ?_, ?_, ?_⟩ <;> simp
    omega
  exact hempty.push rfl (by simp) rfl rfl rfl

/-- As many indices in the bucket as distinct sources at the epoch. -/
theorem Collected.length_seen (h : Collected B f msg threshold sources c) (e : ℕ) :
    (Multimap.get c.seen e).length =
      ((sources.filter (·.epoch = e)).map (·.shardIndex)).toFinset.card := by
  rw [← List.toFinset_card_of_nodup (h.nodup e)]
  congr 1
  ext i
  rw [List.mem_toFinset, h.mem_seen]
  simp [and_assoc]

variable [DecidableEq F] [AddCommGroup G₁] [Module F G₁]

theorem OnPolynomial.dprfPartial_eq (hB : B.Lawful) {f : ℕ → F[X]} {shard : ShardState}
    (h : OnPolynomial B f shard) (msg : Bytes) :
    ∃ share, shareFromBytes B shard.shardBytes = .ok share ∧
      dprfPartial B share msg = .ok (partialAt B (f shard.epoch) msg shard.shardIndex) := by
  refine ⟨⟨shard.shardIndex, (f shard.epoch).eval (shard.shardIndex : F)⟩, ?_,
    hB.dprfPartial_eq _ msg⟩
  rw [h.shardBytes_eq]
  exact hB.shareFromBytes_toBytes _

theorem OnPolynomial.getDprfPartial_eq (hB : B.Lawful) {f : ℕ → F[X]} {shard : ShardState}
    (h : OnPolynomial B f shard) (appId : String) (material : Bytes) :
    getDprfPartial B (some shard) appId material = .ok (shard.shardIndex,
      partialToBytes B (partialAt B (f shard.epoch) (dprfMessage appId material) shard.shardIndex),
      shard.epoch) := by
  obtain ⟨share, hshare, hpartial⟩ := h.dprfPartial_eq hB (dprfMessage appId material)
  simp [getDprfPartial, hshare, hpartial, pure, Except.pure]

theorem Collected.receive (hB : B.Lawful) {appId : String} {material : Bytes}
    (h : Collected B f (dprfMessage appId material) threshold sources c) (hready : c.ready = none)
    {shard : ShardState} (hshard : OnPolynomial B f shard) :
    Collected B f (dprfMessage appId material) threshold (sources ++ [shard])
      (c.receive B threshold (getDprfPartial B (some shard) appId material)) := by
  rw [hshard.getDprfPartial_eq hB]
  simp only [Collect.receive, hB.partialFromBytes_toBytes]
  split
  · next hold => exact h.again hold
  · next hnew => exact h.push hready hnew rfl rfl (by simp [hready])

/-- The reply the coordinator gets for one answer. -/
def replyOf (B : Blsful F G₁ G₂) (appId : String) (material : Bytes)
    (answer : Except String ShardState) : PartialReply :=
  answer.bind fun shard => getDprfPartial B (some shard) appId material

/-- The loop takes the answers in order and stops early only when an epoch is ready. -/
theorem Collected.run (hB : B.Lawful) {appId : String} {material : Bytes}
    (answers : List (Except String ShardState))
    (hanswers : ∀ shard, .ok shard ∈ answers → OnPolynomial B f shard)
    (h : Collected B f (dprfMessage appId material) threshold sources c) :
    ∃ taken, taken <+: answers.filterMap Except.toOption ∧
      (let c' := c.run B threshold (answers.map (replyOf B appId material))
       Collected B f (dprfMessage appId material) threshold (sources ++ taken) c' ∧
        (c'.ready = none → taken = answers.filterMap Except.toOption)) := by
  induction answers generalizing sources c with
  | nil => exact ⟨[], List.nil_prefix, by simpa [Collect.run] using h, fun _ => rfl⟩
  | cons answer answers ih =>
    have hrest : ∀ shard, .ok shard ∈ answers → OnPolynomial B f shard :=
      fun shard hshard => hanswers shard (List.mem_cons_of_mem _ hshard)
    rw [List.map_cons]
    simp only [Collect.run]
    split
    · next hready =>
      refine ⟨[], List.nil_prefix, by simpa using h, fun hnone => ?_⟩
      simp [hnone] at hready
    · next hready =>
      have hnone : c.ready = none := by simpa using hready
      cases answer with
      | error e =>
        -- A failed peer leaves the loop variables alone.
        rw [List.filterMap_cons_none rfl]
        exact ih hrest h
      | ok shard =>
        have hshard : OnPolynomial B f shard := hanswers shard List.mem_cons_self
        obtain ⟨taken, hinit, hcollected, hall⟩ := ih hrest (h.receive hB hnone hshard)
        refine ⟨shard :: taken, ?_, ?_, ?_⟩
        · exact (List.prefix_cons_inj shard).mpr hinit
        · rw [← List.append_cons] at hcollected
          exact hcollected
        · intro hend
          rw [hall hend]
          rfl

/-- Once an epoch is ready, partials of distinct nodes in its bucket combine to the master's
    signature and verify. -/
theorem Collect.finish_of_bucket (hB : B.Lawful) {c : Collect F G₂} {s : F} {e : ℕ} {ids : List ℕ}
    (hready : c.ready = some e)
    (hbucket : Multimap.get c.buckets e = ids.map (partialAt B (f e) msg)) (hnodup : ids.Nodup)
    (hu32 : ∀ i ∈ ids, i < 2 ^ 32) (hthreshold : 2 ≤ threshold) (hlen : threshold ≤ ids.length)
    (hdeg : (f e).degree < threshold) (hmaster : (f e).eval 0 = s) (own : ShardState) :
    ∃ trace, c.finish B threshold own (some (B.pubkeyToBytes (s • B.generator))) msg =
      .ok (sigmaToAppKey B (s • B.hashToCurve msg), trace) := by
  have hsigma : dprfSigma B (Multimap.get c.buckets e) = .ok (s • B.hashToCurve msg) := by
    have hcombine := hB.dprfSigma_eval (f e) ids msg hnodup hu32 (by omega)
      (lt_of_lt_of_le hdeg (by exact_mod_cast hlen))
    rw [hmaster] at hcombine
    rw [hbucket]
    exact hcombine
  have hverify := (hB.dprfVerify_iff s (s • B.hashToCurve msg) msg).mpr rfl
  refine ⟨⟨own.shardIndex, e, (Multimap.get c.contributors e).insertionSort (· ≤ ·)⟩, ?_⟩
  simp [Collect.finish, hready, hsigma, hverify, pure, Except.pure]

theorem Collected.finish (hB : B.Lawful) (h : Collected B f msg threshold sources c) {s : F}
    (hthreshold : 2 ≤ threshold) (hdeg : ∀ e, (f e).degree < threshold)
    (hmaster : ∀ e, (f e).eval 0 = s) (hsources : ∀ shard ∈ sources, shard.shardIndex < 2 ^ 32)
    {e : ℕ} (hready : c.ready = some e) (own : ShardState) :
    ∃ trace, c.finish B threshold own (some (B.pubkeyToBytes (s • B.generator))) msg =
      .ok (sigmaToAppKey B (s • B.hashToCurve msg), trace) := by
  refine Collect.finish_of_bucket hB hready (h.buckets_eq e) (h.nodup e) ?_ hthreshold
    (h.ready_some e hready) (hdeg e) (hmaster e) own
  intro i hi
  obtain ⟨shard, hshard, -, rfl⟩ := (h.mem_seen e i).mp hi
  exact hsources shard hshard

/-- With a readable share the derivation is the collection loop and what follows it. -/
theorem collectAndDprf_eq (hB : B.Lawful) {own : ShardState} (hown : OnPolynomial B f own)
    (signature : Bytes) (replies : List PartialReply) (groupPubkey : Option Bytes)
    (appId : String) (material : Bytes) :
    collectAndDprf B threshold (some own) (.ok signature) replies groupPubkey appId material =
      (Collect.run B threshold (Collect.start threshold own
        (partialAt B (f own.epoch) (dprfMessage appId material) own.shardIndex)) replies).finish B
          threshold own groupPubkey (dprfMessage appId material) := by
  obtain ⟨share, hshare, hpartial⟩ := hown.dprfPartial_eq hB (dprfMessage appId material)
  simp [collectAndDprf, hshare, hpartial]

/-- For an honest committee the derivation succeeds exactly when one epoch has a threshold of
    distinct contributors, and then the key is the one of the master. -/
theorem collectAndDprf_honest (hB : B.Lawful) (f : ℕ → F[X]) (s : F) {threshold : ℕ}
    (hthreshold : 2 ≤ threshold) (hdeg : ∀ e, (f e).degree < threshold)
    (hmaster : ∀ e, (f e).eval 0 = s) {own : ShardState} (hown : OnPolynomial B f own)
    {answers : List (Except String ShardState)}
    (hanswers : ∀ shard, .ok shard ∈ answers → OnPolynomial B f shard) (signature : Bytes)
    (appId : String) (material : Bytes) :
    let outcome := collectAndDprf B threshold (some own) (.ok signature)
      (answers.map (replyOf B appId material)) (some (B.pubkeyToBytes (s • B.generator)))
      appId material
    ((∃ key trace, outcome = .ok (key, trace)) ↔
      ∃ e, threshold ≤ (contributingNodes own answers e).card) ∧
    ∀ key trace, outcome = .ok (key, trace) →
      key = sigmaToAppKey B (s • B.hashToCurve (dprfMessage appId material)) := by
  intro outcome
  let msg := dprfMessage appId material
  let c := Collect.run B threshold
    (Collect.start threshold own (partialAt B (f own.epoch) msg own.shardIndex))
    (answers.map (replyOf B appId material))
  have houtcome : outcome =
      c.finish B threshold own (some (B.pubkeyToBytes (s • B.generator))) msg :=
    collectAndDprf_eq hB hown signature _ _ appId material
  obtain ⟨taken, htaken, hcollected, hall⟩ :=
    (Collected.start hthreshold own).run (f := f) hB answers hanswers
  have hindex : ∀ shard ∈ [own] ++ taken, shard.shardIndex < 2 ^ 32 := by
    intro shard hshard
    rcases List.mem_append.mp hshard with hshard | hshard
    · rw [List.mem_singleton.mp hshard]
      exact hown.index_lt
    · obtain ⟨answer, hanswer, hok⟩ := List.mem_filterMap.mp (htaken.subset hshard)
      cases answer with
      | error e => cases hok
      | ok shard' =>
        cases hok
        exact (hanswers shard hanswer).index_lt
  cases hready : c.ready with
  | none =>
    -- Nothing became ready, so every answer went in and every epoch stayed short.
    have herror : ∀ r, outcome ≠ .ok r := by
      intro r
      rw [houtcome]
      exact Collect.finish_of_none B hready own _ _ r
    refine ⟨⟨?_, ?_⟩, fun key trace hok => absurd hok (herror _)⟩
    · rintro ⟨key, trace, hok⟩
      exact absurd hok (herror _)
    · rintro ⟨e, he⟩
      have hshort := hcollected.ready_none hready e
      rw [hcollected.length_seen, hall hready] at hshort
      exact absurd he (Nat.not_le.mpr hshort)
  | some e =>
    obtain ⟨trace, hfinish⟩ :=
      hcollected.finish hB hthreshold hdeg hmaster hindex hready own
    refine ⟨⟨fun _ => ?_, fun _ => ⟨_, trace, houtcome.trans hfinish⟩⟩, ?_⟩
    · refine ⟨e, le_trans (hcollected.ready_some e hready) ?_⟩
      rw [hcollected.length_seen]
      apply Finset.card_le_card
      intro i hi
      simp only [contributingNodes, List.mem_toFinset, List.mem_map, List.mem_filter,
        List.cons_append, List.nil_append, List.mem_cons] at hi ⊢
      obtain ⟨shard, ⟨hshard | hshard, he⟩, rfl⟩ := hi
      · exact ⟨shard, ⟨.inl hshard, he⟩, rfl⟩
      · exact ⟨shard, ⟨.inr (htaken.subset hshard), he⟩, rfl⟩
    · intro key trace' hok
      have heq := (houtcome.trans hfinish).symm.trans hok
      exact (Prod.mk.inj (Except.ok.inj heq)).1.symm

end Honest

/-- A share of the master 5 on the line of slope `e`. -/
def lineShard (i e : ℕ) : ShardState :=
  ⟨i, shareToBytes scalarBlsful ⟨i, (5 + e * i : ℕ)⟩, e⟩

theorem lineShard_onPolynomial {i : ℕ} (e : ℕ) (hi : i < 2 ^ 32) :
    OnPolynomial scalarBlsful (fun e => C 5 + C (e : Scalar) * X) (lineShard i e) :=
  ⟨hi, by simp [lineShard]⟩

/-- Two of three nodes at epoch 1 are enough, with one peer down and one on another epoch. -/
theorem collectAndDprf_honest_line : ∃ key trace,
    collectAndDprf scalarBlsful 2 (some (lineShard 1 1)) (.ok [])
      ([.error "unreachable", .ok (lineShard 3 2), .ok (lineShard 2 1)].map
        (replyOf scalarBlsful "app" [7]))
      (some (scalarBlsful.pubkeyToBytes ((5 : Scalar) • scalarBlsful.generator))) "app" [7] =
    .ok (key, trace) := by
  have hdeg : ∀ e : ℕ, (C 5 + C (e : Scalar) * X).degree < ((2 : ℕ) : WithBot ℕ) := by
    intro e
    rw [add_comm]
    exact lt_of_le_of_lt degree_linear_le (by decide)
  refine (collectAndDprf_honest scalarBlsful_lawful (fun e => C 5 + C (e : Scalar) * X) 5 le_rfl
    hdeg (by simp) (lineShard_onPolynomial 1 (by norm_num)) ?_ [] "app" [7]).1.mpr ⟨1, by decide⟩
  intro shard hshard
  simp only [List.mem_cons, reduceCtorEq, Except.ok.injEq, List.not_mem_nil, false_or,
    or_false] at hshard
  rcases hshard with rfl | rfl
  · exact lineShard_onPolynomial 2 (by norm_num)
  · exact lineShard_onPolynomial 1 (by norm_num)

end KmsCluster
