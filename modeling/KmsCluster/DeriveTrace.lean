import KmsCluster.Derive

/-!
# Who served a derivation

The trace that `collect_and_dprf` (`src/grpc.rs`) returns, for any replies of any peers. The loop
combines the epoch that fills first, which need not be the epoch of the coordinator's own share;
the coordinator is listed when it is, or when some peer answered at that epoch under its index.

## Main results

- `Aligned.run`: buckets, seen indices and contributors stay aligned through any replies.
- `derive_trace_tells_iff`: what the trace lists, and when the coordinator is in it.
- `coordinator_not_listed`: a derivation whose trace leaves the coordinator out.
-/

namespace KmsCluster

open Fallible Polynomial

-- ════════════════════════════════════════════════════════════════════════
-- Replies as claims
-- ════════════════════════════════════════════════════════════════════════

/-- What a reply says of itself, and whether its payload can be read. -/
structure Claim where
  epoch : ℕ
  index : ℕ
  readable : Bool

def Claim.Names (e i : ℕ) (claim : Claim) : Prop := claim.epoch = e ∧ claim.index = i

instance (e i : ℕ) : DecidablePred (Claim.Names e i) := fun _ => instDecidableAnd

/-- The first claim of the index at the epoch can be read. -/
def served (claims : List Claim) (e i : ℕ) : Bool :=
  (claims.find? fun claim => decide (claim.Names e i)).any (·.readable)

/-- A threshold of distinct indices served the epoch. -/
def Full (threshold : ℕ) (claims : List Claim) (e : ℕ) : Prop :=
  ∃ ids : Finset ℕ, threshold ≤ ids.card ∧ ∀ i ∈ ids, served claims e i = true

/-- The epoch is the first to be full, with the last of the claims `taken`. -/
structure FillsFirst (threshold : ℕ) (claims taken : List Claim) (e : ℕ) : Prop where
  taken_prefix : taken <+: claims
  full : Full threshold taken e
  first : ∀ earlier, earlier <+: taken → earlier ≠ taken → ∀ e', ¬ Full threshold earlier e'

theorem served_append_singleton_of_names {claims : List Claim} {claim : Claim} {e i : ℕ}
    (hclaim : claim.Names e i) (hnew : ∀ c ∈ claims, ¬ c.Names e i) :
    served (claims ++ [claim]) e i = claim.readable := by
  have hnone : claims.find? (fun c => decide (c.Names e i)) = none := by
    rw [List.find?_eq_none]
    intro c hc
    simpa using hnew c hc
  simp [served, hnone, hclaim]

theorem served_append_singleton_of_not_names {claims : List Claim} {claim : Claim} {e i : ℕ}
    (hclaim : ¬ claim.Names e i) : served (claims ++ [claim]) e i = served claims e i := by
  simp [served, hclaim]

/-- A claim at another epoch does not fill this one. -/
theorem Full.of_append_singleton {threshold : ℕ} {claims : List Claim} {claim : Claim} {e : ℕ}
    (h : Full threshold (claims ++ [claim]) e) (hne : claim.epoch ≠ e) :
    Full threshold claims e := by
  obtain ⟨ids, hcard, hids⟩ := h
  refine ⟨ids, hcard, fun i hi => ?_⟩
  rw [← served_append_singleton_of_not_names fun hnames => hne hnames.1]
  exact hids i hi

theorem not_full_nil {threshold : ℕ} (hthreshold : 1 ≤ threshold) (e : ℕ) :
    ¬ Full threshold [] e := by
  rintro ⟨ids, hcard, hids⟩
  obtain ⟨i, hi⟩ := Finset.card_pos.mp (lt_of_lt_of_le hthreshold hcard)
  cases hids i hi

theorem FillsFirst.taken_eq {threshold : ℕ} {claims taken taken' : List Claim} {e e' : ℕ}
    (h : FillsFirst threshold claims taken e) (h' : FillsFirst threshold claims taken' e') :
    taken = taken' := by
  by_contra hne
  rcases List.prefix_or_prefix_of_prefix h.taken_prefix h'.taken_prefix with hle | hle
  · exact h'.first taken hle hne e h.full
  · exact h.first taken' hle (Ne.symm hne) e' h'.full

/-- Only the epoch of the last claim can be the first to be full. -/
theorem FillsFirst.epoch_eq {threshold : ℕ} (hthreshold : 1 ≤ threshold)
    {claims taken : List Claim} {e e' : ℕ} (h : FillsFirst threshold claims taken e)
    (h' : FillsFirst threshold claims taken e') : e = e' := by
  rcases List.eq_nil_or_concat taken with rfl | ⟨earlier, claim, rfl⟩
  · exact absurd h.full (not_full_nil hthreshold e)
  · rw [List.concat_eq_append] at h h'
    have hearlier : earlier <+: earlier ++ [claim] := List.prefix_append _ _
    have hne : earlier ≠ earlier ++ [claim] := by simp
    have hlast : ∀ {x}, FillsFirst threshold claims (earlier ++ [claim]) x → claim.epoch = x := by
      intro x hx
      by_contra hother
      exact hx.first earlier hearlier hne x (hx.full.of_append_singleton hother)
    exact (hlast h).symm.trans (hlast h')

theorem served_append_singleton_of_mem {claims : List Claim} (claim : Claim) {e i : ℕ}
    (hold : ∃ c ∈ claims, c.Names e i) :
    served (claims ++ [claim]) e i = served claims e i := by
  have hsome : (claims.find? fun c => decide (c.Names e i)).isSome = true := by
    rw [List.find?_isSome]
    obtain ⟨c, hc, hnames⟩ := hold
    exact ⟨c, hc, decide_eq_true hnames⟩
  obtain ⟨c, hc⟩ := Option.isSome_iff_exists.mp hsome
  simp [served, hc]

section Loop

variable {F G₁ G₂ : Type} {B : Blsful F G₁ G₂} {threshold : ℕ} {claims : List Claim}
  {c : Collect F G₂} {From : ℕ → ℕ → SignatureShare F G₂ → Prop}

/-- What the loop variables hold after the claims, the coordinator's own among them: an index
    contributes its partial to the bucket of the epoch when its first claim can be read. -/
structure Aligned (From : ℕ → ℕ → SignatureShare F G₂ → Prop) (threshold : ℕ)
    (claims : List Claim) (c : Collect F G₂) : Prop where
  mem_seen : ∀ e i, i ∈ Multimap.get c.seen e ↔ ∃ claim ∈ claims, claim.Names e i
  mem_contributors : ∀ e i, i ∈ Multimap.get c.contributors e ↔ served claims e i = true
  nodup : ∀ e, (Multimap.get c.contributors e).Nodup
  partials : ∀ e, List.Forall₂ (From e) (Multimap.get c.contributors e) (Multimap.get c.buckets e)
  ready_some : ∀ e, c.ready = some e → (Multimap.get c.contributors e).length = threshold
  ready_none : c.ready = none → ∀ e, (Multimap.get c.contributors e).length < threshold
  first : ∀ earlier, earlier <+: claims → earlier ≠ claims → ∀ e, ¬ Full threshold earlier e

theorem Aligned.full_iff (h : Aligned From threshold claims c) (e : ℕ) :
    Full threshold claims e ↔ threshold ≤ (Multimap.get c.contributors e).length := by
  rw [← List.toFinset_card_of_nodup (h.nodup e)]
  constructor
  · rintro ⟨ids, hcard, hids⟩
    refine le_trans hcard (Finset.card_le_card fun i hi => ?_)
    exact List.mem_toFinset.mpr ((h.mem_contributors e i).mpr (hids i hi))
  · intro hlen
    refine ⟨_, hlen, fun i hi => ?_⟩
    exact (h.mem_contributors e i).mp (List.mem_toFinset.mp hi)

/-- While no epoch is ready, none was full before the next claim either. -/
theorem Aligned.first_concat (h : Aligned From threshold claims c) (hready : c.ready = none)
    (claim : Claim) : ∀ earlier, earlier <+: claims ++ [claim] → earlier ≠ claims ++ [claim] →
      ∀ e, ¬ Full threshold earlier e := by
  intro earlier hearlier hne e
  rcases List.prefix_concat_iff.mp hearlier with heq | hearlier
  · exact absurd heq hne
  · by_cases hall : earlier = claims
    · subst hall
      rw [h.full_iff, not_le]
      exact h.ready_none hready e
    · exact h.first earlier hearlier hall e

/-- A claim of an index that was seen already changes nothing. -/
theorem Aligned.skip (h : Aligned From threshold claims c) (hready : c.ready = none)
    {claim : Claim} (hold : claim.index ∈ Multimap.get c.seen claim.epoch) :
    Aligned From threshold (claims ++ [claim]) c := by
  have hseen := (h.mem_seen _ _).mp hold
  have hagain : ∀ {e i : ℕ}, claim.Names e i → ∃ c ∈ claims, c.Names e i := by
    rintro e i ⟨rfl, rfl⟩
    exact hseen
  refine ⟨?_, ?_, h.nodup, h.partials, h.ready_some, h.ready_none, h.first_concat hready claim⟩
  · intro e i
    rw [h.mem_seen]
    simp only [List.mem_append, List.mem_singleton, or_and_right, exists_or, exists_eq_left]
    exact ⟨.inl, fun hnames => hnames.elim id hagain⟩
  · intro e i
    rw [h.mem_contributors]
    by_cases hnames : claim.Names e i
    · rw [served_append_singleton_of_mem claim (hagain hnames)]
    · rw [served_append_singleton_of_not_names hnames]

theorem Aligned.mem_seen_push (h : Aligned From threshold claims c) (claim : Claim) (e i : ℕ) :
    i ∈ Multimap.get (Multimap.push c.seen claim.epoch claim.index) e ↔
      ∃ c ∈ claims ++ [claim], c.Names e i := by
  simp only [List.mem_append, List.mem_singleton, or_and_right, exists_or, exists_eq_left]
  rw [← h.mem_seen]
  by_cases he : e = claim.epoch
  · subst he
    simp [Claim.Names, eq_comm]
  · rw [Multimap.get_push_of_ne _ _ he]
    simp [Claim.Names, Ne.symm he]

theorem Aligned.not_names (h : Aligned From threshold claims c) {claim : Claim}
    (hnew : claim.index ∉ Multimap.get c.seen claim.epoch) :
    ∀ d ∈ claims, ¬ d.Names claim.epoch claim.index :=
  fun d hd hnames => hnew ((h.mem_seen _ _).mpr ⟨d, hd, hnames⟩)

/-- A first claim that cannot be read takes its index and contributes nothing. -/
theorem Aligned.discard (h : Aligned From threshold claims c) (hready : c.ready = none)
    {claim : Claim} (hnew : claim.index ∉ Multimap.get c.seen claim.epoch)
    (hreadable : claim.readable = false) : Aligned From threshold (claims ++ [claim])
      { c with seen := Multimap.push c.seen claim.epoch claim.index } := by
  refine ⟨h.mem_seen_push claim, ?_, h.nodup, h.partials, h.ready_some, h.ready_none,
    h.first_concat hready claim⟩
  intro e i
  by_cases hnames : claim.Names e i
  · obtain ⟨rfl, rfl⟩ := hnames
    have hnone : claim.index ∉ Multimap.get c.contributors claim.epoch := by
      rw [h.mem_contributors, served, List.find?_eq_none.mpr]
      · simp
      · simpa using h.not_names hnew
    rw [served_append_singleton_of_names ⟨rfl, rfl⟩ (h.not_names hnew), hreadable]
    simpa using hnone
  · rw [served_append_singleton_of_not_names hnames, ← h.mem_contributors]

/-- A first claim that can be read contributes its partial, and `ready` follows its bucket. -/
theorem Aligned.push (h : Aligned From threshold claims c) (hready : c.ready = none)
    {claim : Claim} {sig : SignatureShare F G₂} {c' : Collect F G₂}
    (hnew : claim.index ∉ Multimap.get c.seen claim.epoch) (hreadable : claim.readable = true)
    (hfrom : From claim.epoch claim.index sig)
    (hseen : c'.seen = Multimap.push c.seen claim.epoch claim.index)
    (hcontributors : c'.contributors = Multimap.push c.contributors claim.epoch claim.index)
    (hbuckets : c'.buckets = Multimap.push c.buckets claim.epoch sig)
    (hready' : c'.ready = if threshold ≤ (Multimap.get c'.buckets claim.epoch).length
      then some claim.epoch else none) :
    Aligned From threshold (claims ++ [claim]) c' := by
  have hfresh : claim.index ∉ Multimap.get c.contributors claim.epoch := by
    rw [h.mem_contributors, served, List.find?_eq_none.mpr]
    · simp
    · simpa using h.not_names hnew
  have hpartials : ∀ e, List.Forall₂ (From e) (Multimap.get c'.contributors e)
      (Multimap.get c'.buckets e) := by
    intro e
    rw [hcontributors, hbuckets]
    by_cases he : e = claim.epoch
    · subst he
      rw [Multimap.get_push_self, Multimap.get_push_self]
      exact List.rel_append (h.partials _) (.cons hfrom .nil)
    · rw [Multimap.get_push_of_ne _ _ he, Multimap.get_push_of_ne _ _ he]
      exact h.partials e
  have hbucket : (Multimap.get c'.buckets claim.epoch).length =
      (Multimap.get c.contributors claim.epoch).length + 1 := by
    rw [← (hpartials claim.epoch).length_eq, hcontributors, Multimap.get_push_self,
      List.length_append, List.length_singleton]
  have hshort := h.ready_none hready
  refine ⟨?_, ?_, ?_, hpartials, ?_, ?_, h.first_concat hready claim⟩
  · rw [hseen]
    exact h.mem_seen_push claim
  · intro e i
    rw [hcontributors]
    by_cases hnames : claim.Names e i
    · obtain ⟨rfl, rfl⟩ := hnames
      rw [served_append_singleton_of_names ⟨rfl, rfl⟩ (h.not_names hnew), hreadable]
      simp
    · rw [served_append_singleton_of_not_names hnames, ← h.mem_contributors]
      by_cases he : e = claim.epoch
      · subst he
        have hi : i ≠ claim.index := fun heq => hnames ⟨rfl, heq.symm⟩
        simp [hi]
      · rw [Multimap.get_push_of_ne _ _ he]
  · intro e
    rw [hcontributors]
    by_cases he : e = claim.epoch
    · subst he
      rw [Multimap.get_push_self, ← List.concat_eq_append]
      exact (h.nodup _).concat hfresh
    · rw [Multimap.get_push_of_ne _ _ he]
      exact h.nodup e
  · intro e he
    rw [hready'] at he
    split at he
    · next hlarge =>
      cases he
      have hroom := hshort claim.epoch
      rw [hbucket] at hlarge
      rw [(hpartials claim.epoch).length_eq, hbucket]
      omega
    · cases he
  · intro hnone e
    rw [hready'] at hnone
    split at hnone
    · cases hnone
    · next hsmall =>
      by_cases he : e = claim.epoch
      · subst he
        rw [(hpartials _).length_eq]
        omega
      · rw [hcontributors, Multimap.get_push_of_ne _ _ he]
        exact hshort e

theorem Aligned.start (hthreshold : 1 ≤ threshold) (own : ShardState)
    {ownPartial : SignatureShare F G₂} (hfrom : From own.epoch own.shardIndex ownPartial) :
    Aligned From threshold [⟨own.epoch, own.shardIndex, true⟩]
      (Collect.start threshold own ownPartial) := by
  have hempty : Aligned From threshold [] (⟨∅, ∅, ∅, none⟩ : Collect F G₂) := by
    refine ⟨by simp, by simp [served], by simp, by simp, nofun, ?_, ?_⟩
    · intro _ e
      rw [Multimap.get_empty, List.length_nil]
      omega
    · intro earlier hearlier hne
      exact absurd (List.prefix_nil.mp hearlier) hne
  have hnew : own.shardIndex ∉ Multimap.get (∅ : Multimap ℕ ℕ) own.epoch := by simp
  have hpush : Aligned From threshold ([] ++ [⟨own.epoch, own.shardIndex, true⟩])
      (Collect.start threshold own ownPartial) := hempty.push rfl hnew rfl hfrom rfl rfl rfl rfl
  exact hpush

variable (B) in
/-- The claim of a reply that arrived. -/
def PartialReply.claim : PartialReply → Option Claim
  | .error _ => none
  | .ok (idx, bytes, epoch) => some ⟨epoch, idx, (partialFromBytes B bytes).isOk⟩

theorem Aligned.receive (h : Aligned From threshold claims c) (hready : c.ready = none)
    {reply : PartialReply} (hfrom : ∀ idx bytes epoch sig, reply = .ok (idx, bytes, epoch) →
      partialFromBytes B bytes = .ok sig → From epoch idx sig) :
    Aligned From threshold (claims ++ (PartialReply.claim B reply).toList)
      (c.receive B threshold reply) := by
  match reply with
  | .error e =>
    rw [PartialReply.claim, Option.toList_none, List.append_nil]
    exact h
  | .ok (idx, bytes, epoch) =>
    rw [PartialReply.claim, Option.toList_some, Collect.receive]
    split
    · next hold => exact h.skip hready hold
    · next hnew =>
      cases hsig : partialFromBytes B bytes with
      | error e => exact h.discard hready hnew rfl
      | ok sig =>
        exact h.push hready hnew rfl (hfrom idx bytes epoch sig rfl hsig) rfl rfl rfl
          (by simp [hready])

/-- The loop takes the replies in order and stops as soon as an epoch is ready. -/
theorem Aligned.run (replies : List PartialReply) (hfrom : ∀ idx bytes epoch sig,
      .ok (idx, bytes, epoch) ∈ replies → partialFromBytes B bytes = .ok sig → From epoch idx sig)
    (h : Aligned From threshold claims c) :
    ∃ taken, taken <+: claims ++ replies.filterMap (PartialReply.claim B) ∧
      Aligned From threshold taken (c.run B threshold replies) := by
  induction replies generalizing claims c with
  | nil => exact ⟨claims, List.prefix_append _ _, h⟩
  | cons reply replies ih =>
    simp only [Collect.run]
    split
    · exact ⟨claims, List.prefix_append _ _, h⟩
    · next hready =>
      have hnone : c.ready = none := by simpa using hready
      have hreceive : Aligned From threshold (claims ++ (PartialReply.claim B reply).toList)
          (c.receive B threshold reply) := h.receive hnone
        fun idx bytes epoch sig heq => hfrom idx bytes epoch sig (heq ▸ List.mem_cons_self)
      obtain ⟨taken, htaken, haligned⟩ := ih
        (fun idx bytes epoch sig hmem => hfrom idx bytes epoch sig (List.mem_cons_of_mem _ hmem))
        hreceive
      refine ⟨taken, ?_, haligned⟩
      have hclaims : claims ++ (PartialReply.claim B reply).toList ++
          replies.filterMap (PartialReply.claim B) =
          claims ++ (reply :: replies).filterMap (PartialReply.claim B) := by
        cases hclaim : PartialReply.claim B reply with
        | none => simp [hclaim]
        | some claim => simp [hclaim]
      rw [← hclaims]
      exact htaken

/-- What `finish` returns, when it does. -/
theorem Collect.finish_eq_ok {own : ShardState} {groupPubkey : Option Bytes} {msg key : Bytes}
    {trace : DeriveTrace} (h : c.finish B threshold own groupPubkey msg = .ok (key, trace)) :
    ∃ epoch sigma, c.ready = some epoch ∧
      dprfSigma B (Multimap.get c.buckets epoch) = .ok sigma ∧ key = sigmaToAppKey B sigma ∧
      trace = ⟨own.shardIndex, epoch,
        (Multimap.get c.contributors epoch).insertionSort (· ≤ ·)⟩ := by
  obtain ⟨epoch, hepoch, h⟩ := bind_eq_ok.mp h
  obtain ⟨sigma, hsigma, h⟩ := bind_eq_ok.mp h
  obtain ⟨pubkey, -, h⟩ := bind_eq_ok.mp h
  obtain ⟨_, -, h⟩ := bind_eq_ok.mp h
  cases h
  exact ⟨epoch, sigma, okOr_eq_ok.mp hepoch, mapError_eq_ok.mp hsigma, rfl, rfl⟩

end Loop

section Trace

variable {F G₁ G₂ : Type} (B : Blsful F G₁ G₂)

/-- The partial of index `i` at epoch `e` is the coordinator's own or one that a peer sent. -/
def PartialOf (own : ShardState) (replies : List PartialReply) (msg : Bytes) (e i : ℕ)
    (sig : SignatureShare F G₂) : Prop :=
  (e = own.epoch ∧ i = own.shardIndex ∧ ∃ share, shareFromBytes B own.shardBytes = .ok share ∧
    dprfPartial B share msg = .ok sig) ∨
  ∃ bytes, .ok (i, bytes, e) ∈ replies ∧ partialFromBytes B bytes = .ok sig

/-- The servers of a trace are the threshold of indices, in order, whose partials of its epoch were
    combined into the key. -/
structure ListsCombined (threshold : ℕ) (own : ShardState) (replies : List PartialReply)
    (msg key : Bytes) (trace : DeriveTrace) : Prop where
  increasing : trace.servers.Pairwise (· < ·)
  length_eq : trace.servers.length = threshold
  combined : ∃ (partials : List (ℕ × SignatureShare F G₂)) (sigma : G₂),
    trace.servers.Perm (partials.map Prod.fst) ∧
    (∀ p ∈ partials, PartialOf B own replies msg trace.epoch p.1 p.2) ∧
    dprfSigma B (partials.map Prod.snd) = .ok sigma ∧ key = sigmaToAppKey B sigma

/-- What a coordinator hears: its own share, then the replies that arrive. -/
def heard (own : ShardState) (replies : List PartialReply) : List Claim :=
  ⟨own.epoch, own.shardIndex, true⟩ :: replies.filterMap (PartialReply.claim B)

/-- At the epoch that is the first to be full, the coordinator's index has served: by its own share,
    or by a reply under its index. -/
def CoordinatorServes (threshold : ℕ) (own : ShardState) (claims : List Claim) : Prop :=
  ∃ taken e, FillsFirst threshold claims taken e ∧ served taken e own.shardIndex = true

/-- The trace tells who served: it lists what was combined, the coordinator included. -/
structure TellsWhoServed (threshold : ℕ) (own : ShardState) (replies : List PartialReply)
    (msg key : Bytes) (trace : DeriveTrace) : Prop extends
    ListsCombined B threshold own replies msg key trace where
  coordinator_mem : trace.coordinator ∈ trace.servers

variable {B} {threshold : ℕ} {own : ShardState} {replies : List PartialReply} {msg key : Bytes}
  {trace : DeriveTrace}

theorem Aligned.listsCombined {claims : List Claim} {c : Collect F G₂} {epoch : ℕ} {sigma : G₂}
    (h : Aligned (PartialOf B own replies msg) threshold claims c) (hready : c.ready = some epoch)
    (hsigma : dprfSigma B (Multimap.get c.buckets epoch) = .ok sigma) :
    ListsCombined B threshold own replies msg (sigmaToAppKey B sigma) ⟨own.shardIndex, epoch,
      (Multimap.get c.contributors epoch).insertionSort (· ≤ ·)⟩ where
  increasing := by
    have hsorted := List.pairwise_insertionSort (· ≤ ·) (Multimap.get c.contributors epoch)
    have hnodup : ((Multimap.get c.contributors epoch).insertionSort (· ≤ ·)).Nodup :=
      (List.perm_insertionSort _ _).nodup_iff.mpr (h.nodup epoch)
    exact (hsorted.and hnodup).imp fun hle => lt_of_le_of_ne hle.1 hle.2
  length_eq := by
    rw [List.length_insertionSort]
    exact h.ready_some epoch hready
  combined := by
    have hpartials := h.partials epoch
    refine ⟨(Multimap.get c.contributors epoch).zip (Multimap.get c.buckets epoch), sigma, ?_, ?_,
      ?_, rfl⟩
    · rw [List.map_fst_zip (le_of_eq hpartials.length_eq)]
      exact List.perm_insertionSort _ _
    · rintro ⟨i, sig⟩ hp
      exact List.forall₂_zip hpartials hp
    · rwa [List.map_snd_zip (le_of_eq hpartials.length_eq.symm)]

/-- For every threshold from one on, every own share and any replies in any order: the servers of
    the trace are exactly the threshold of indices, in order, whose partials of its epoch were
    combined. The coordinator is one of them exactly when its index served the epoch that is the
    first to be full. -/
theorem derive_trace_tells_iff (hthreshold : 1 ≤ threshold) {signature : Except String Bytes}
    {groupPubkey : Option Bytes} {appId : String} {material : Bytes}
    (hok : collectAndDprf B threshold (some own) signature replies groupPubkey appId material =
      .ok (key, trace)) :
    ListsCombined B threshold own replies (dprfMessage appId material) key trace ∧
      (TellsWhoServed B threshold own replies (dprfMessage appId material) key trace ↔
        CoordinatorServes threshold own (heard B own replies)) := by
  obtain ⟨_, hown, hok⟩ := bind_eq_ok.mp hok
  cases hown
  obtain ⟨share, hshare, hok⟩ := bind_eq_ok.mp hok
  obtain ⟨ownPartial, hpartial, hok⟩ := bind_eq_ok.mp hok
  obtain ⟨_, -, hok⟩ := bind_eq_ok.mp hok
  obtain ⟨epoch, sigma, hready, hsigma, rfl, rfl⟩ := Collect.finish_eq_ok hok
  have hstart : Aligned (PartialOf B own replies (dprfMessage appId material)) threshold
      [⟨own.epoch, own.shardIndex, true⟩] (Collect.start threshold own ownPartial) :=
    Aligned.start hthreshold own (.inl ⟨rfl, rfl, share, mapError_eq_ok.mp hshare,
      mapError_eq_ok.mp hpartial⟩)
  obtain ⟨taken, htaken, haligned⟩ := hstart.run (B := B) replies
    fun idx bytes epoch sig hmem hsig => .inr ⟨bytes, hmem, hsig⟩
  have hlists := haligned.listsCombined hready hsigma
  have hfills : FillsFirst threshold (heard B own replies) taken epoch :=
    ⟨htaken, (haligned.full_iff epoch).mpr (le_of_eq (haligned.ready_some epoch hready).symm),
      haligned.first⟩
  refine ⟨hlists, ?_, ?_⟩
  · intro htells
    have hmem := (List.mem_insertionSort _).mp htells.coordinator_mem
    exact ⟨taken, epoch, hfills, (haligned.mem_contributors _ _).mp hmem⟩
  · rintro ⟨taken', epoch', hfills', hserved⟩
    obtain rfl := hfills.taken_eq hfills'
    obtain rfl := hfills.epoch_eq hthreshold hfills'
    refine ⟨hlists, (List.mem_insertionSort _).mpr ?_⟩
    exact (haligned.mem_contributors _ _).mpr hserved

end Trace

/-- Nodes 2 and 3 answer the coordinator with shares of epoch `e`. -/
def answersAt (e : ℕ) : List (Except String ShardState) := [.ok (lineShard 2 e), .ok (lineShard 3 e)]

def repliesAt (e : ℕ) : List PartialReply := (answersAt e).map (replyOf scalarBlsful "app" [7])

/-- What node 1, whose share is of epoch 1, derives from them in a 2-of-3 committee. -/
def derivedAt (e : ℕ) : Except KmsError (Bytes × DeriveTrace) :=
  collectAndDprf scalarBlsful 2 (some (lineShard 1 1)) (.ok []) (repliesAt e)
    (some (scalarBlsful.pubkeyToBytes ((5 : Scalar) • scalarBlsful.generator))) "app" [7]

/-- The loop variables after those replies. -/
def collectedAt (ownPartial : SignatureShare Scalar Scalar) (e : ℕ) : Collect Scalar Scalar :=
  Collect.run scalarBlsful 2 (Collect.start 2 (lineShard 1 1) ownPartial) (repliesAt e)

theorem derivedAt_eq {e : ℕ} {servers : List ℕ}
    (henough : 2 ≤ (contributingNodes (lineShard 1 1) (answersAt e) e).card)
    (hready : ∀ ownPartial, (collectedAt ownPartial e).ready = some e)
    (hservers : ∀ ownPartial, (Multimap.get (collectedAt ownPartial e).contributors e).insertionSort
      (· ≤ ·) = servers) :
    ∃ key, derivedAt e = .ok (key, ⟨1, e, servers⟩) := by
  have hdeg : ∀ e : ℕ, (C 5 + C (e : Scalar) * X).degree < ((2 : ℕ) : WithBot ℕ) := by
    intro e
    rw [add_comm]
    exact lt_of_le_of_lt degree_linear_le (by decide)
  have hown := lineShard_onPolynomial (i := 1) 1 (by norm_num)
  have hanswers : ∀ shard, .ok shard ∈ answersAt e →
      OnPolynomial scalarBlsful (fun e => C 5 + C (e : Scalar) * X) shard := by
    intro shard hshard
    simp only [answersAt, List.mem_cons, Except.ok.injEq, List.not_mem_nil, or_false] at hshard
    rcases hshard with rfl | rfl
    · exact lineShard_onPolynomial e (by norm_num)
    · exact lineShard_onPolynomial e (by norm_num)
  obtain ⟨key, trace, hok⟩ := (collectAndDprf_honest scalarBlsful_lawful
    (fun e => C 5 + C (e : Scalar) * X) 5 le_rfl hdeg (by simp) hown hanswers [] "app" [7]).1.mpr
    ⟨e, henough⟩
  have hfinish := hok
  rw [collectAndDprf_eq scalarBlsful_lawful hown] at hfinish
  obtain ⟨epoch, sigma, hready', -, rfl, rfl⟩ := Collect.finish_eq_ok hfinish
  obtain rfl : e = epoch := Option.some.inj ((hready _).symm.trans hready')
  exact ⟨_, hservers _ ▸ hok⟩

/-- When the peers share the coordinator's epoch, it is listed; when they are ahead, it is not. -/
theorem derive_trace_tells_line : (∃ key, TellsWhoServed scalarBlsful 2 (lineShard 1 1)
      (repliesAt 1) (dprfMessage "app" [7]) key ⟨1, 1, [1, 2]⟩) ∧
    ¬ CoordinatorServes 2 (lineShard 1 1) (heard scalarBlsful (lineShard 1 1) (repliesAt 2)) := by
  obtain ⟨key, hsame⟩ : ∃ key, derivedAt 1 = .ok (key, ⟨1, 1, [1, 2]⟩) :=
    derivedAt_eq (by decide) (fun _ => rfl) (fun _ => rfl)
  obtain ⟨key', hother⟩ : ∃ key, derivedAt 2 = .ok (key, ⟨1, 2, [2, 3]⟩) :=
    derivedAt_eq (by decide) (fun _ => rfl) (fun _ => rfl)
  refine ⟨⟨key, (derive_trace_tells_iff (by decide) hsame).1, by decide⟩, fun hserves => ?_⟩
  have htells := (derive_trace_tells_iff (by decide) hother).2.mpr hserves
  exact absurd htells.coordinator_mem (by decide)

/-- Two peers that are an epoch ahead fill their epoch first: the coordinator contributes nothing
    to the key, and its trace does not list it. -/
theorem coordinator_not_listed : ∃ key trace, derivedAt 2 = .ok (key, trace) ∧
    trace.coordinator = 1 ∧ trace.servers = [2, 3] ∧ trace.coordinator ∉ trace.servers := by
  obtain ⟨key, hother⟩ : ∃ key, derivedAt 2 = .ok (key, ⟨1, 2, [2, 3]⟩) :=
    derivedAt_eq (by decide) (fun _ => rfl) (fun _ => rfl)
  exact ⟨key, _, hother, rfl, rfl, by decide⟩

end KmsCluster
