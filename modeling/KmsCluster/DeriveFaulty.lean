import KmsCluster.Derive

/-!
# Key derivation with bad peers

`collect_and_dprf` (`src/grpc.rs`) over replies of which some fail and some carry a payload that
`partial_from_bytes` rejects. The loop notes the index of a reply before it reads the payload, and
the index is the one that the reply claims.

## Main results

- `Gathered.run`: what the collection loop holds after any replies.
- `bad_peers_discarded_iff`: the derivation succeeds exactly when a threshold of holders answers
  before a bad reply claims their index.
- `claimed_index_lost`: one bad peer that keeps an honest one out.
-/

namespace KmsCluster

open Fallible Polynomial

/-- How the future of a registered peer completes. -/
inductive PeerReply where
  /-- An honest peer answers from its share. -/
  | honest (shard : ShardState)
  | failed (error : String)
  /-- The payload is rejected; index and epoch are what the reply claims. -/
  | malformed (index : ℕ) (bytes : Bytes) (epoch : ℕ)

/-- The epoch and index that the loop notes for a reply. -/
def PeerReply.claim : PeerReply → Option (ℕ × ℕ)
  | .honest shard => some (shard.epoch, shard.shardIndex)
  | .failed _ => none
  | .malformed index _ epoch => some (epoch, index)

/-- A bad reply that claims the index at the epoch. -/
def PeerReply.Malforms (epoch index : ℕ) : PeerReply → Prop
  | .malformed index' _ epoch' => epoch' = epoch ∧ index' = index
  | _ => False

/-- A holder of the index answers at the epoch before any bad reply claims it. -/
def ServedFirst (sources : List PeerReply) (epoch index : ℕ) : Prop :=
  ∃ earlier shard later, sources = earlier ++ .honest shard :: later ∧ shard.epoch = epoch ∧
    shard.shardIndex = index ∧ ∀ reply ∈ earlier, ¬ reply.Malforms epoch index

-- ════════════════════════════════════════════════════════════════════════
-- Who answers first
-- ════════════════════════════════════════════════════════════════════════

theorem ServedFirst.append {sources : List PeerReply} {epoch index : ℕ}
    (h : ServedFirst sources epoch index) (more : List PeerReply) :
    ServedFirst (sources ++ more) epoch index := by
  obtain ⟨earlier, shard, later, rfl, hepoch, hindex, hfirst⟩ := h
  exact ⟨earlier, shard, later ++ more, by simp, hepoch, hindex, hfirst⟩

theorem servedFirst_append_singleton {sources : List PeerReply} {reply : PeerReply}
    {epoch index : ℕ} : ServedFirst (sources ++ [reply]) epoch index ↔
      ServedFirst sources epoch index ∨ ∃ shard, reply = .honest shard ∧ shard.epoch = epoch ∧
        shard.shardIndex = index ∧ ∀ r ∈ sources, ¬ r.Malforms epoch index := by
  constructor
  · rintro ⟨earlier, shard, later, hsources, hepoch, hindex, hfirst⟩
    rcases List.eq_nil_or_concat later with rfl | ⟨init, last, rfl⟩
    · obtain ⟨rfl, hlast⟩ := List.append_inj' hsources rfl
      exact .inr ⟨shard, (List.cons.inj hlast).1, hepoch, hindex, hfirst⟩
    · rw [List.concat_eq_append, ← List.cons_append, ← List.append_assoc] at hsources
      obtain ⟨rfl, -⟩ := List.append_inj' hsources rfl
      exact .inl ⟨earlier, shard, init, rfl, hepoch, hindex, hfirst⟩
  · rintro (h | ⟨shard, rfl, hepoch, hindex, hfirst⟩)
    · exact h.append _
    · exact ⟨sources, shard, [], rfl, hepoch, hindex, hfirst⟩

/-- An index that somebody claims and no bad reply does is a holder's. -/
theorem servedFirst_of_claim {sources : List PeerReply} {epoch index : ℕ}
    (hclaim : ∃ reply ∈ sources, reply.claim = some (epoch, index))
    (hnone : ∀ reply ∈ sources, ¬ reply.Malforms epoch index) :
    ServedFirst sources epoch index := by
  obtain ⟨reply, hreply, hclaim⟩ := hclaim
  cases reply with
  | honest shard =>
    cases hclaim
    obtain ⟨earlier, later, rfl⟩ := List.append_of_mem hreply
    exact ⟨earlier, shard, later, rfl, rfl, rfl,
      fun r hr => hnone r (List.mem_append_left _ hr)⟩
  | failed error => cases hclaim
  | malformed index' bytes epoch' =>
    cases hclaim
    exact absurd ⟨rfl, rfl⟩ (hnone _ hreply)

theorem ServedFirst.claim {sources : List PeerReply} {epoch index : ℕ}
    (h : ServedFirst sources epoch index) :
    ∃ shard, .honest shard ∈ sources ∧ shard.epoch = epoch ∧ shard.shardIndex = index := by
  obtain ⟨earlier, shard, later, rfl, hepoch, hindex, -⟩ := h
  exact ⟨shard, List.mem_append_right _ List.mem_cons_self, hepoch, hindex⟩

section Loop

variable {F G₁ G₂ : Type} [Field F] [AddCommGroup G₂] [Module F G₂] {B : Blsful F G₁ G₂}
  {f : ℕ → F[X]} {msg : Bytes} {threshold : ℕ} {sources : List PeerReply} {c : Collect F G₂}

/-- What the loop variables hold once the replies `sources` went in, the coordinator's own
    included: an index is noted for whoever claims it first, and contributes when that is its
    holder. -/
structure Gathered (B : Blsful F G₁ G₂) (f : ℕ → F[X]) (msg : Bytes) (threshold : ℕ)
    (sources : List PeerReply) (c : Collect F G₂) : Prop where
  mem_seen : ∀ e i, i ∈ Multimap.get c.seen e ↔ ∃ reply ∈ sources, reply.claim = some (e, i)
  mem_contributors : ∀ e i, i ∈ Multimap.get c.contributors e ↔ ServedFirst sources e i
  bucketed : Bucketed B f msg threshold c.contributors c

/-- A reply that claims a new index is noted. -/
theorem Gathered.mem_seen_push (h : Gathered B f msg threshold sources c) {reply : PeerReply}
    {epoch index : ℕ} (hclaim : reply.claim = some (epoch, index)) (e i : ℕ) :
    i ∈ Multimap.get (Multimap.push c.seen epoch index) e ↔
      ∃ r ∈ sources ++ [reply], r.claim = some (e, i) := by
  simp only [List.mem_append, List.mem_singleton, or_and_right, exists_or, exists_eq_left, hclaim,
    Option.some.injEq, Prod.mk.injEq, ← h.mem_seen]
  by_cases he : e = epoch
  · subst he
    simp [eq_comm]
  · rw [Multimap.get_push_of_ne _ _ he]
    simp [Ne.symm he]

/-- A reply with nothing to note, or with an index that is noted already. -/
theorem Gathered.skip (h : Gathered B f msg threshold sources c) {reply : PeerReply}
    (hclaim : ∀ e i, reply.claim = some (e, i) → i ∈ Multimap.get c.seen e) :
    Gathered B f msg threshold (sources ++ [reply]) c := by
  refine ⟨?_, ?_, h.bucketed⟩
  · intro e i
    rw [h.mem_seen]
    constructor
    · rintro ⟨r, hr, hri⟩
      exact ⟨r, List.mem_append_left _ hr, hri⟩
    · rintro ⟨r, hr, hri⟩
      rcases List.mem_append.mp hr with hr | hr
      · exact ⟨r, hr, hri⟩
      · rw [List.mem_singleton] at hr
        subst hr
        exact (h.mem_seen e i).mp (hclaim e i hri)
  · intro e i
    rw [h.mem_contributors, servedFirst_append_singleton]
    constructor
    · exact .inl
    · rintro (hserved | ⟨shard, rfl, rfl, rfl, hnone⟩)
      · exact hserved
      · exact servedFirst_of_claim ((h.mem_seen _ _).mp (hclaim _ _ rfl)) hnone

/-- A bad reply takes its index and contributes nothing. -/
theorem Gathered.discard (h : Gathered B f msg threshold sources c) {index epoch : ℕ}
    {bytes : Bytes} : Gathered B f msg threshold (sources ++ [.malformed index bytes epoch])
      { c with seen := Multimap.push c.seen epoch index } := by
  have hbucketed := h.bucketed
  refine ⟨h.mem_seen_push rfl, ?_, hbucketed.nodup, hbucketed.buckets_eq, hbucketed.ready_some,
    hbucketed.ready_none⟩
  intro e i
  rw [servedFirst_append_singleton]
  constructor
  · intro hi
    exact .inl ((h.mem_contributors e i).mp hi)
  · rintro (hserved | ⟨shard, hshard, -⟩)
    · exact (h.mem_contributors e i).mpr hserved
    · cases hshard

/-- The reply of a holder whose index is new contributes, and `ready` follows its bucket. -/
theorem Gathered.push (h : Gathered B f msg threshold sources c) (hready : c.ready = none)
    {shard : ShardState} {c' : Collect F G₂}
    (hnew : shard.shardIndex ∉ Multimap.get c.seen shard.epoch)
    (hseen : c'.seen = Multimap.push c.seen shard.epoch shard.shardIndex)
    (hcontributors : c'.contributors = Multimap.push c.contributors shard.epoch shard.shardIndex)
    (hbuckets : c'.buckets = Multimap.push c.buckets shard.epoch
      (partialAt B (f shard.epoch) msg shard.shardIndex))
    (hready' : c'.ready = if threshold ≤ (Multimap.get c'.buckets shard.epoch).length
      then some shard.epoch else none) :
    Gathered B f msg threshold (sources ++ [.honest shard]) c' := by
  have hunclaimed : ∀ r ∈ sources, ¬ r.Malforms shard.epoch shard.shardIndex := by
    intro r hr hmalforms
    cases r with
    | malformed index bytes epoch =>
      obtain ⟨rfl, rfl⟩ := hmalforms
      exact hnew ((h.mem_seen _ _).mpr ⟨_, hr, rfl⟩)
    | honest shard => exact hmalforms
    | failed error => exact hmalforms
  have hfresh : shard.shardIndex ∉ Multimap.get c.contributors shard.epoch := by
    intro hmem
    obtain ⟨shard', hshard', hepoch, hindex⟩ := ((h.mem_contributors _ _).mp hmem).claim
    exact hnew ((h.mem_seen _ _).mpr ⟨_, hshard', by rw [PeerReply.claim, hepoch, hindex]⟩)
  refine ⟨?_, ?_, ?_⟩
  · rw [hseen]
    exact h.mem_seen_push rfl
  · intro e i
    rw [servedFirst_append_singleton, ← h.mem_contributors, hcontributors]
    by_cases he : e = shard.epoch
    · subst he
      rw [Multimap.get_push_self, List.mem_append, List.mem_singleton]
      refine or_congr_right ⟨?_, ?_⟩
      · rintro rfl
        exact ⟨shard, rfl, rfl, rfl, hunclaimed⟩
      · rintro ⟨shard', heq, -, rfl, -⟩
        cases heq
        rfl
    · rw [Multimap.get_push_of_ne _ _ he]
      refine ⟨.inl, ?_⟩
      rintro (hi | ⟨shard', heq, rfl, -⟩)
      · exact hi
      · cases heq
        exact absurd rfl he
  · rw [hcontributors]
    exact h.bucketed.push hready hfresh hbuckets hready'

theorem Gathered.start (hthreshold : 2 ≤ threshold) (own : ShardState) :
    Gathered B f msg threshold [.honest own]
      (Collect.start threshold own (partialAt B (f own.epoch) msg own.shardIndex)) := by
  have hempty : Gathered B f msg threshold [] (⟨∅, ∅, ∅, none⟩ : Collect F G₂) := by
    refine ⟨by simp, ?_, by simp, by simp, by simp, ?_⟩
    · intro e i
      refine ⟨by simp, ?_⟩
      rintro ⟨earlier, shard, later, hnil, -⟩
      simp at hnil
    · intro _ e
      simp only [Multimap.get_empty, List.length_nil]
      omega
  exact hempty.push rfl (by simp) rfl rfl rfl rfl

/-- Some epoch has a threshold of holders, the coordinator included, that answer before a bad reply
    claims their index. -/
def EnoughServed (threshold : ℕ) (own : ShardState) (replies : List PeerReply) : Prop :=
  ∃ epoch, ∃ ids : Finset ℕ, threshold ≤ ids.card ∧
    ∀ i ∈ ids, ServedFirst (.honest own :: replies) epoch i

theorem Gathered.enoughServed {own : ShardState} {taken replies : List PeerReply}
    (h : Gathered B f msg threshold (.honest own :: taken) c) (htaken : taken <+: replies) {e : ℕ}
    (hready : c.ready = some e) : EnoughServed threshold own replies := by
  refine ⟨e, (Multimap.get c.contributors e).toFinset, ?_, ?_⟩
  · rw [List.toFinset_card_of_nodup (h.bucketed.nodup e)]
    exact h.bucketed.ready_some e hready
  · intro i hi
    obtain ⟨rest, rfl⟩ := htaken
    exact ((h.mem_contributors e i).mp (List.mem_toFinset.mp hi)).append rest

theorem Gathered.not_enoughServed {own : ShardState} {replies : List PeerReply}
    (h : Gathered B f msg threshold (.honest own :: replies) c) (hready : c.ready = none) :
    ¬ EnoughServed threshold own replies := by
  rintro ⟨e, ids, hcard, hids⟩
  have hsubset : ids ⊆ (Multimap.get c.contributors e).toFinset := by
    intro i hi
    exact List.mem_toFinset.mpr ((h.mem_contributors e i).mpr (hids i hi))
  have hle := Finset.card_le_card hsubset
  rw [List.toFinset_card_of_nodup (h.bucketed.nodup e)] at hle
  have hshort := h.bucketed.ready_none hready e
  omega

variable [DecidableEq F] [AddCommGroup G₁] [Module F G₁]

/-- The reply as the coordinator reads it. -/
def PeerReply.read (B : Blsful F G₁ G₂) (appId : String) (material : Bytes) :
    PeerReply → PartialReply
  | .honest shard => getDprfPartial B (some shard) appId material
  | .failed error => .error error
  | .malformed index bytes epoch => .ok (index, bytes, epoch)

/-- Honest replies come from shares of the polynomials, and bad payloads are rejected. -/
def PeerReply.Admitted (B : Blsful F G₁ G₂) (f : ℕ → F[X]) : PeerReply → Prop
  | .honest shard => OnPolynomial B f shard
  | .failed _ => True
  | .malformed _ bytes _ => ∃ e, partialFromBytes B bytes = .error e

theorem Gathered.receive (hB : B.Lawful) {appId : String} {material : Bytes}
    (h : Gathered B f (dprfMessage appId material) threshold sources c) (hready : c.ready = none)
    {reply : PeerReply} (hreply : reply.Admitted B f) :
    Gathered B f (dprfMessage appId material) threshold (sources ++ [reply])
      (c.receive B threshold (reply.read B appId material)) := by
  cases reply with
  | honest shard =>
    rw [PeerReply.read, OnPolynomial.getDprfPartial_eq hB hreply]
    simp only [Collect.receive, hB.partialFromBytes_toBytes]
    split
    · next hold =>
      refine h.skip fun e i hclaim => ?_
      cases hclaim
      exact hold
    · next hnew => exact h.push hready hnew rfl rfl rfl (by simp [hready])
  | failed error =>
    refine h.skip ?_
    intro e i hclaim
    cases hclaim
  | malformed index bytes epoch =>
    obtain ⟨e, hrejected⟩ := hreply
    simp only [PeerReply.read, Collect.receive, hrejected]
    split
    · next hold =>
      refine h.skip fun e i hclaim => ?_
      cases hclaim
      exact hold
    · exact h.discard

/-- The loop takes the replies in order and stops early only when an epoch is ready. -/
theorem Gathered.run (hB : B.Lawful) {appId : String} {material : Bytes}
    (replies : List PeerReply) (hreplies : ∀ reply ∈ replies, reply.Admitted B f)
    (h : Gathered B f (dprfMessage appId material) threshold sources c) :
    ∃ taken, taken <+: replies ∧
      (let c' := c.run B threshold (replies.map (·.read B appId material))
       Gathered B f (dprfMessage appId material) threshold (sources ++ taken) c' ∧
        (c'.ready = none → taken = replies)) := by
  induction replies generalizing sources c with
  | nil => exact ⟨[], List.nil_prefix, by simpa [Collect.run] using h, fun _ => rfl⟩
  | cons reply replies ih =>
    rw [List.map_cons]
    simp only [Collect.run]
    split
    · next hready =>
      refine ⟨[], List.nil_prefix, by simpa using h, fun hnone => ?_⟩
      simp [hnone] at hready
    · next hready =>
      have hnone : c.ready = none := by simpa using hready
      obtain ⟨taken, hinit, hgathered, hall⟩ :=
        ih (fun r hr => hreplies r (List.mem_cons_of_mem _ hr))
          (h.receive hB hnone (hreplies reply List.mem_cons_self))
      refine ⟨reply :: taken, (List.prefix_cons_inj reply).mpr hinit, ?_, ?_⟩
      · rw [← List.append_cons] at hgathered
        exact hgathered
      · intro hend
        rw [hall hend]

/-- For every arrival order of honest replies, failures and rejected payloads, the derivation
    returns the key of the master exactly when enough holders are served before their index is
    claimed by a bad reply, and it never returns another key. -/
theorem bad_peers_discarded_iff (hB : B.Lawful) (f : ℕ → F[X]) (s : F) {threshold : ℕ}
    (hthreshold : 2 ≤ threshold) (hdeg : ∀ e, (f e).degree < threshold)
    (hmaster : ∀ e, (f e).eval 0 = s) {own : ShardState} (hown : OnPolynomial B f own)
    {replies : List PeerReply} (hreplies : ∀ reply ∈ replies, reply.Admitted B f)
    (signature : Bytes) (appId : String) (material : Bytes) :
    let outcome := collectAndDprf B threshold (some own) (.ok signature)
      (replies.map (·.read B appId material)) (some (B.pubkeyToBytes (s • B.generator)))
      appId material
    let key := sigmaToAppKey B (s • B.hashToCurve (dprfMessage appId material))
    ((∃ trace, outcome = .ok (key, trace)) ↔ EnoughServed threshold own replies) ∧
      ∀ key' trace, outcome = .ok (key', trace) → key' = key := by
  intro outcome key
  let c := Collect.run B threshold (Collect.start threshold own
    (partialAt B (f own.epoch) (dprfMessage appId material) own.shardIndex))
    (replies.map (·.read B appId material))
  have houtcome : outcome = c.finish B threshold own (some (B.pubkeyToBytes (s • B.generator)))
      (dprfMessage appId material) := collectAndDprf_eq hB hown signature _ _ appId material
  obtain ⟨taken, htaken, hgathered, hall⟩ :=
    (Gathered.start hthreshold own).run (f := f) hB replies hreplies
  cases hready : c.ready with
  | none =>
    have herror : ∀ r, outcome ≠ .ok r := by
      intro r
      rw [houtcome]
      exact Collect.finish_of_none B hready own _ _ r
    refine ⟨⟨?_, ?_⟩, fun key' trace hok => absurd hok (herror _)⟩
    · rintro ⟨trace, hok⟩
      exact absurd hok (herror _)
    · intro henough
      rw [hall hready] at hgathered
      exact absurd henough (hgathered.not_enoughServed hready)
  | some e =>
    have hu32 : ∀ i ∈ Multimap.get c.contributors e, i < 2 ^ 32 := by
      intro i hi
      obtain ⟨shard, hshard, -, rfl⟩ := ((hgathered.mem_contributors e i).mp hi).claim
      rcases List.mem_cons.mp hshard with hshard | hshard
      · cases hshard
        exact hown.index_lt
      · exact OnPolynomial.index_lt (hreplies _ (htaken.subset hshard))
    obtain ⟨trace, hfinish⟩ := Collect.finish_of_bucket hB hready
      (hgathered.bucketed.buckets_eq e) (hgathered.bucketed.nodup e) hu32 hthreshold
      (hgathered.bucketed.ready_some e hready) (hdeg e) (hmaster e) own
    have hok : outcome = .ok (key, trace) := houtcome.trans hfinish
    refine ⟨⟨fun _ => hgathered.enoughServed htaken hready, fun _ => ⟨trace, hok⟩⟩, ?_⟩
    intro key' trace' hok'
    exact (Prod.mk.inj (Except.ok.inj (hok.symm.trans hok'))).1.symm

end Loop

/-- A garbled payload of the node with index 3, claimed for index `i` at epoch 1. -/
def garbled (i : ℕ) : PeerReply := .malformed i [] 1

theorem garbled_admitted (i : ℕ) :
    (garbled i).Admitted scalarBlsful (fun e => C 5 + C (e : Scalar) * X) := by
  exact ⟨_, rfl⟩

/-- A bad reply under its own index does no harm, wherever it arrives. -/
theorem bad_peers_discarded_own : ∃ trace,
    collectAndDprf scalarBlsful 2 (some (lineShard 1 1)) (.ok [])
      ([garbled 3, .failed "unreachable", .honest (lineShard 2 1)].map
        (·.read scalarBlsful "app" [7]))
      (some (scalarBlsful.pubkeyToBytes ((5 : Scalar) • scalarBlsful.generator))) "app" [7] =
    .ok (sigmaToAppKey scalarBlsful
      ((5 : Scalar) • scalarBlsful.hashToCurve (dprfMessage "app" [7])), trace) := by
  have hdeg : ∀ e : ℕ, (C 5 + C (e : Scalar) * X).degree < ((2 : ℕ) : WithBot ℕ) := by
    intro e
    rw [add_comm]
    exact lt_of_le_of_lt degree_linear_le (by decide)
  have hreplies : ∀ reply ∈ [garbled 3, .failed "unreachable", .honest (lineShard 2 1)],
      reply.Admitted scalarBlsful (fun e => C 5 + C (e : Scalar) * X) := by
    intro reply hreply
    simp only [List.mem_cons, List.not_mem_nil, or_false] at hreply
    rcases hreply with rfl | rfl | rfl
    · exact garbled_admitted 3
    · trivial
    · exact lineShard_onPolynomial 1 (by norm_num)
  refine (bad_peers_discarded_iff scalarBlsful_lawful (fun e => C 5 + C (e : Scalar) * X) 5 le_rfl
    hdeg (by simp) (lineShard_onPolynomial 1 (by norm_num)) hreplies [] "app" [7]).1.mpr
    ⟨1, {1, 2}, by decide, ?_⟩
  intro i hi
  simp only [Finset.mem_insert, Finset.mem_singleton] at hi
  rcases hi with rfl | rfl
  · exact ⟨[], lineShard 1 1, _, rfl, rfl, rfl, by simp⟩
  · refine ⟨[.honest (lineShard 1 1), garbled 3, .failed "unreachable"], lineShard 2 1, [], rfl,
      rfl, rfl, ?_⟩
    simp [PeerReply.Malforms, garbled]

/-- Nodes 1 and 2 of a 2-of-3 committee hold shares of epoch 1 and node 2 answers. Node 3 has
    claimed its index first, and there is no key. -/
theorem claimed_index_lost :
    (contributingNodes (lineShard 1 1) [.ok (lineShard 2 1)] 1).card = 2 ∧
      (garbled 2).Admitted scalarBlsful (fun e => C 5 + C (e : Scalar) * X) ∧
      ∀ r, collectAndDprf scalarBlsful 2 (some (lineShard 1 1)) (.ok [])
        ([garbled 2, .honest (lineShard 2 1)].map (·.read scalarBlsful "app" [7]))
        (some (scalarBlsful.pubkeyToBytes ((5 : Scalar) • scalarBlsful.generator))) "app" [7] ≠
          .ok r := by
  refine ⟨by decide, garbled_admitted 2, ?_⟩
  intro r
  rw [collectAndDprf_eq scalarBlsful_lawful (lineShard_onPolynomial 1 (by norm_num))]
  exact Collect.finish_of_none _ rfl _ _ _ r

end KmsCluster
